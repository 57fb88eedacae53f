import MiniPascal.Proofs.Parsing.Reach

/-!
# Outcomes of parsers

`Meets p s Q` says what a parser `p` can do from the state `s`. A result and the state it comes with
satisfy `Q`. A problem is one of the grammar, at the token that is current when it arises. A token
that cannot be read ends the stream. In every case the state is reached by steps of parsing, and
there is enough fuel to get there.
-/

namespace MiniPascal.Parsing

variable {α β : Type}

/-! ## The judgement -/

/-- What is known of the state in which parsing stops. -/
def Stop.At : Stop → State → Prop
  | .problem d, t => ∃ p : Problem, p.stage = .parsing ∧ d = t.current.diagnose p
  | .unreadable fault, t => t.stream.ending = .unreadable fault
  | .outOfFuel, _ => False

/-- Results satisfy `Q`, and stops are of the sorts above. -/
def Meets (p : Parser α) (s : State) (Q : α → State → Prop) : Prop :=
  match p s with
  | .ok a t => Reaches s t ∧ Q a t
  | .error e t => Reaches s t ∧ e.At t

theorem Meets.of_ok {p : Parser α} {s t : State} {a : α} {Q : α → State → Prop}
    (h : Meets p s Q) (he : p s = .ok a t) : Reaches s t ∧ Q a t := by
  rwa [Meets, he] at h

theorem Meets.of_error {p : Parser α} {s t : State} {e : Stop} {Q : α → State → Prop}
    (h : Meets p s Q) (he : p s = .error e t) : Reaches s t ∧ e.At t := by
  rwa [Meets, he] at h

theorem Meets.of_apply_eq {p q : Parser α} {s : State} {Q : α → State → Prop} (he : p s = q s)
    (h : Meets q s Q) : Meets p s Q := by
  rwa [Meets, he]

theorem Meets.pure {a : α} {s : State} {Q : α → State → Prop} (h : Q a s) :
    Meets (pure a) s Q :=
  ⟨.refl, h⟩

theorem Meets.imp {p : Parser α} {s : State} {Q R : α → State → Prop} (h : Meets p s Q)
    (hQ : ∀ a t, Q a t → R a t) : Meets p s R := by
  unfold Meets at h ⊢
  cases he : p s with
  | ok a t =>
    rw [he] at h
    exact ⟨h.1, hQ a t h.2⟩
  | error e t =>
    rw [he] at h
    exact h

theorem bind_apply (p : Parser α) (f : α → Parser β) (s : State) :
    (p >>= f) s = match p s with
      | .ok a t => f a t
      | .error e t => .error e t := by
  show EStateM.bind p f s = _
  unfold EStateM.bind
  cases p s <;> rfl

theorem Meets.bind {p : Parser α} {f : α → Parser β} {s : State} {Q : α → State → Prop}
    {R : β → State → Prop} (hp : Meets p s Q)
    (hf : ∀ a t, Reaches s t → Q a t → Meets (f a) t R) : Meets (p >>= f) s R := by
  unfold Meets at hp ⊢
  rw [bind_apply]
  cases he : p s with
  | ok a t =>
    rw [he] at hp
    have h := hf a t hp.1 hp.2
    unfold Meets at h
    dsimp only
    split
    · rename_i b u hu
      rw [hu] at h
      exact ⟨hp.1.trans h.1, h.2⟩
    · rename_i e u hu
      rw [hu] at h
      exact ⟨hp.1.trans h.1, h.2⟩
  | error e t =>
    rw [he] at hp
    exact hp

theorem meets_peek {f : TokenKind → Parser β} {s : State} {R : β → State → Prop} :
    Meets (peek >>= f) s R ↔ Meets (f s.current.kind) s R := Iff.rfl

theorem meets_currentLine {f : Value → Parser β} {s : State} {R : β → State → Prop} :
    Meets (currentLine >>= f) s R ↔ Meets (f (.int s.current.line)) s R := Iff.rfl

theorem meets_get {f : State → Parser β} {s : State} {R : β → State → Prop} :
    Meets (get >>= f) s R ↔ Meets (f s) s R := Iff.rfl

theorem meets_fail {p : Problem} {s : State} {Q : α → State → Prop} (hp : p.stage = .parsing) :
    Meets (fail p) s Q :=
  ⟨.refl, p, hp, rfl⟩

/-! ## Moving on -/

/-- The current token, which is not the end of the text, is moved over. -/
inductive Moves : State → State → Prop
  | mk {s : State} {r : Reading} {rest : Stream} :
      s.current.kind ≠ .endOfFile → s.stream.next = .ok (r, rest) → Moves s (s.receive r rest)

namespace Moves

variable {s t : State}

theorem step (h : Moves s t) : Step s t := by
  obtain ⟨hc, hn⟩ := h
  exact .read hc hn

theorem reaches (h : Moves s t) : Reaches s t := .single h.step

theorem ahead (h : Moves s t) : s.ahead = s.current :: t.ahead := by
  obtain ⟨hc, hn⟩ := h
  exact State.ahead_receive hc hn

theorem problems (h : Moves s t) : t.problems = s.problems := by
  cases h; rfl

theorem table (h : Moves s t) : t.table = s.table := by
  cases h; rfl

theorem strict (h : Moves s t) : t.strict = s.strict := by
  cases h; rfl

theorem length_ahead (h : Moves s t) : t.ahead.length < s.ahead.length := by
  rw [h.ahead]; exact Nat.lt_succ_self _

end Moves

theorem advance_eq (s : State) :
    advance s = match s.stream.next with
      | .ok (r, rest) => .ok s.current (s.receive r rest)
      | .error fault => .error (.unreadable fault) s := rfl

theorem meets_advance {s : State} {Q : Token → State → Prop} (hc : s.current.kind ≠ .endOfFile)
    (h : ∀ t, Moves s t → Q s.current t) : Meets advance s Q := by
  unfold Meets
  rw [advance_eq]
  cases hn : s.stream.next with
  | ok x =>
    obtain ⟨r, rest⟩ := x
    exact ⟨.single (.read hc hn), h _ ⟨hc, hn⟩⟩
  | error fault => exact ⟨.refl, Stream.next_eq_error hn⟩

/-- Moving over the current token, and then something else. -/
theorem meets_advance_bind {s : State} {f : Token → Parser β} {R : β → State → Prop}
    (hc : s.current.kind ≠ .endOfFile) (h : ∀ t, Moves s t → Meets (f s.current) t R) :
    Meets (advance >>= f) s R :=
  (meets_advance (Q := fun a t => a = s.current ∧ Moves s t) hc fun _ ht => ⟨rfl, ht⟩).bind
    fun _ t _ ha => ha.1 ▸ h t ha.2

theorem meets_consume {kind : TokenKind} {p : Problem} {s : State} {Q : Token → State → Prop}
    (hk : kind ≠ .endOfFile) (hp : p.stage = .parsing)
    (h : ∀ t, s.current.kind = kind → Moves s t → Q s.current t) :
    Meets (consume kind p) s Q := by
  unfold consume
  rw [meets_peek]
  split
  · next hc => exact meets_advance (hc ▸ hk) fun t ht => h t hc ht
  · exact meets_fail hp

/-- Moving over a token of the given kind, and then something else. -/
theorem meets_consume_bind {kind : TokenKind} {p : Problem} {s : State} {f : Token → Parser β}
    {R : β → State → Prop} (hk : kind ≠ .endOfFile) (hp : p.stage = .parsing)
    (h : ∀ t, s.current.kind = kind → Moves s t → Meets (f s.current) t R) :
    Meets (consume kind p >>= f) s R :=
  (meets_consume (Q := fun a t => a = s.current ∧ s.current.kind = kind ∧ Moves s t) hk hp
    fun _ hc ht => ⟨rfl, hc, ht⟩).bind fun _ t _ ha => ha.1 ▸ h t ha.2.1 ha.2.2

/-! ## Reporting -/

theorem meets_complain {p : Problem} {s : State} {Q : Unit → State → Prop}
    (hp : p.stage = .parsing) (h : Q () (s.reported (s.current.diagnose p))) :
    Meets (complain p) s Q :=
  ⟨.single (.report hp), h⟩

/-- A token of a kind is moved over, or its lack is reported. -/
inductive Expects (kind : TokenKind) (p : Problem) : State → State → Prop
  | found {s t : State} : s.current.kind = kind → Moves s t → Expects kind p s t
  | missing {s : State} :
      s.current.kind ≠ kind → Expects kind p s (s.reported (s.current.diagnose p))

theorem meets_expect {kind : TokenKind} {p : Problem} {s : State} {Q : Bool → State → Prop}
    (hk : kind ≠ .endOfFile) (hp : p.stage = .parsing)
    (h : ∀ b t, (b = true ↔ s.current.kind = kind) → Expects kind p s t → Q b t) :
    Meets (expect kind p) s Q := by
  unfold expect
  rw [meets_peek]
  split
  · next hc =>
    exact meets_advance_bind (hc ▸ hk) fun t ht =>
      .pure (h true t (iff_of_true rfl hc) (.found hc ht))
  · next hc =>
    exact (meets_complain (Q := fun _ t => t = s.reported (s.current.diagnose p)) hp rfl).bind
      fun _ t _ ht => .pure (h false t (iff_of_false (by decide) hc) (ht ▸ .missing hc))

/-! ## Skipping -/

/-- Tokens of the kinds at which skipping does not end are moved over. -/
abbrev Skips (ends : TokenKind → Bool) : State → State → Prop :=
  Relation.ReflTransGen fun s t => ends s.current.kind = false ∧ Moves s t

theorem Skips.reaches {ends : TokenKind → Bool} {s t : State} (h : Skips ends s t) :
    Reaches s t := by
  induction h with
  | refl => exact .refl
  | tail _ hm ih => exact ih.tail hm.2.step

theorem Skips.problems {ends : TokenKind → Bool} {s t : State} (h : Skips ends s t) :
    t.problems = s.problems := by
  induction h with
  | refl => rfl
  | tail _ hm ih => exact hm.2.problems.trans ih

/-- What skipping leaves ahead. -/
theorem Skips.ahead_eq_dropWhile {ends : TokenKind → Bool} {s t : State} (h : Skips ends s t)
    (ht : ends t.current.kind = true) : t.ahead = s.ahead.dropWhile fun x => !ends x.kind := by
  induction h using Relation.ReflTransGen.head_induction_on with
  | refl =>
    by_cases he : t.current.kind = .endOfFile
    · rw [State.ahead_of_end he]; rfl
    · rw [State.ahead_of_ne he, List.dropWhile_cons_of_neg (by simp [ht])]
  | head hm _ ih => rw [hm.2.ahead, List.dropWhile_cons_of_pos (by simp [hm.1]), ih]

/-- Where skipping stops it has moved over all tokens up to one at which it ends. -/
theorem skipAmong_spec (ends : TokenKind → Bool) (hend : ends .endOfFile = true)
    (ending : Ending) (items : List Reading) (s : State) (hs : s.stream = ⟨items, ending⟩) :
    match skipAmong ends ending items s with
    | .ok _ t => Skips ends s t ∧ ends t.current.kind = true
    | .error e t => Skips ends s t ∧ e.At t := by
  have hne : ∀ {u : State}, ends u.current.kind ≠ true → u.current.kind ≠ .endOfFile :=
    fun hu he => hu (he ▸ hend)
  -- The tokens left in the stream run out, and then the end of the text ends the skipping.
  induction items generalizing s with
  | nil =>
    by_cases he : ends s.current.kind = true
    · simp only [skipAmong, he, if_true]
      exact ⟨.refl, trivial⟩
    · cases ending with
      | endOfFile line =>
        have hn : s.stream.next = .ok ({ token := .endOfFile line }, ⟨[], .endOfFile line⟩) := by
          rw [hs]; rfl
        simp only [skipAmong, he]
        exact ⟨.single ⟨by simpa using he, hne he, hn⟩, hend⟩
      | unreadable fault =>
        simp only [skipAmong, he]
        exact ⟨.refl, by rw [Stop.At, hs]⟩
  | cons r rest ih =>
    by_cases he : ends s.current.kind = true
    · simp only [skipAmong, he, if_true]
      exact ⟨.refl, trivial⟩
    · have hn : s.stream.next = .ok (r, ⟨rest, ending⟩) := by rw [hs]; rfl
      have hm : ends s.current.kind = false ∧ Moves s (s.receive r ⟨rest, ending⟩) :=
        ⟨by simpa using he, hne he, hn⟩
      have h := ih (s.receive r ⟨rest, ending⟩) rfl
      simp only [skipAmong, he]
      cases hq : skipAmong ends ending rest (s.receive r ⟨rest, ending⟩) with
      | ok _ t => rw [hq] at h; exact ⟨.head hm h.1, h.2⟩
      | error e t => rw [hq] at h; exact ⟨.head hm h.1, h.2⟩

theorem meets_skipTo {followers : TokenKind → Bool} {s : State} {Q : Unit → State → Prop}
    (h : ∀ t, Skips (stopsAt followers) s t → stopsAt followers t.current.kind = true → Q () t) :
    Meets (skipTo followers) s Q := by
  have hspec := skipAmong_spec (stopsAt followers) (by simp [stopsAt]) s.stream.ending
    s.stream.items s rfl
  unfold Meets skipTo
  split at hspec
  · next he => rw [he]; exact ⟨hspec.1.reaches, h _ hspec.1 hspec.2⟩
  · next he => rw [he]; exact ⟨hspec.1.reaches, hspec.2⟩

/-- Semicolons are moved over, up to another token. -/
structure SkipsSemicolons (s t : State) : Prop where
  skips : Skips (· != .symbol .semicolon) s t
  stops : t.current.kind ≠ .symbol .semicolon

theorem meets_skipSemicolons {s : State} {Q : Unit → State → Prop}
    (h : ∀ t, SkipsSemicolons s t → Q () t) : Meets skipSemicolons s Q := by
  have hspec := skipAmong_spec (· != .symbol .semicolon) rfl s.stream.ending
    s.stream.items s rfl
  unfold Meets skipSemicolons
  split at hspec
  · next he => rw [he]; exact ⟨hspec.1.reaches, h _ ⟨hspec.1, by simpa using hspec.2⟩⟩
  · next he => rw [he]; exact ⟨hspec.1.reaches, hspec.2⟩

/-! ## Recovering -/

/-- A problem is reported at some point, and tokens are skipped up to a follower. -/
structure Recovers (followers : TokenKind → Bool) (s t : State) : Prop where
  reaches : Reaches s t
  problems : s.problems < t.problems
  syntaxError : t.HasSyntaxError
  stops : stopsAt followers t.current.kind = true

theorem meets_recover (followers : TokenKind → Bool) {p : Problem} {s : State}
    {Q : Unit → State → Prop} (hp : p.stage = .parsing)
    (h : ∀ t, Recovers followers s t → Q () t) :
    Meets (recover followers (s.current.diagnose p)) s Q := by
  have hr : Meets (report (s.current.diagnose p)) s
      (fun _ t => t = s.reported (s.current.diagnose p)) := ⟨.single (.report hp), rfl⟩
  refine hr.bind fun _ t ht he => meets_skipTo fun u hu hs => ?_
  subst he
  refine h u ⟨ht.trans hu.reaches, ?_, hu.reaches.hasSyntaxError (s.hasSyntaxError_reported hp), hs⟩
  rw [hu.problems]
  exact Nat.lt_succ_self _

/-- The outcome of an attempt: a result, or a recovery. -/
def Attempted (followers : TokenKind → Bool) (Q : α → State → Prop) (s : State) :
    Option α → State → Prop
  | some a, t => Q a t
  | none, t => Recovers followers s t

theorem meets_attempt {followers : TokenKind → Bool} {p : Parser α} {s : State}
    {Q : α → State → Prop} (h : Meets p s Q) :
    Meets (attempt followers p) s (Attempted followers Q s) := by
  unfold Meets at h
  unfold Meets attempt
  cases he : p s with
  | ok a t => rw [he] at h; exact h
  | error e t =>
    rw [he] at h
    cases e with
    | problem d =>
      obtain ⟨hr, q, hq, rfl⟩ := h
      -- The problem is reported where the parser stopped, and recovery goes on from there.
      have hrec := meets_recover followers (s := t) (Q := fun _ u =>
        Recovers followers t u) hq fun _ hu => hu
      unfold Meets at hrec
      dsimp only
      split
      · next ho =>
        split at ho
        · next hu =>
          rw [hu] at hrec
          cases ho
          exact ⟨hr.trans hrec.1, hr.trans hrec.1, hr.problems_le.trans_lt hrec.2.problems,
            hrec.2.syntaxError, hrec.2.stops⟩
        · cases ho
      · next ho =>
        split at ho
        · cases ho
        · next hu =>
          rw [hu] at hrec
          cases ho
          exact ⟨hr.trans hrec.1, hrec.2⟩
    | unreadable fault => exact h
    | outOfFuel => exact h

end MiniPascal.Parsing
