import MiniPascal.Proofs.Parsing.Accounting

/-!
# A parse beside another

Two parses of streams that differ only in semicolons do the same, apart from what they report.
`s.Beside added t` says of their states that the tables and the modes are the same, and that the
diagnostics of the second are those of the first with `added` inserted.

A program without problems starts with a header of three tokens, and `BEGIN` after it. What follows
can be exchanged: the parse of the body starts from the same state, with another stream
(`header_of_parse?`, `parse?_eq_some_iff_body`).
-/

namespace MiniPascal

/-! ## Lists with elements inserted -/

/-- Inserting the elements of a second list into a first one, in their order, makes a third. -/
inductive Inserted {α : Type} : List α → List α → List α → Prop
  | nil : Inserted [] [] []
  | kept {x : α} {xs added ys : List α} : Inserted xs added ys → Inserted (x :: xs) added (x :: ys)
  | new {x : α} {xs added ys : List α} : Inserted xs added ys → Inserted xs (x :: added) (x :: ys)

namespace Inserted

variable {α : Type} {xs xs' added added' ys ys' : List α}

theorem refl (xs : List α) : Inserted xs [] xs := by
  induction xs with
  | nil => exact .nil
  | cons x xs ih => exact .kept ih

theorem append (h : Inserted xs added ys) (h' : Inserted xs' added' ys') :
    Inserted (xs ++ xs') (added ++ added') (ys ++ ys') := by
  induction h with
  | nil => exact h'
  | kept _ ih => exact .kept ih
  | new _ ih => exact .new ih

theorem filter (h : Inserted xs added ys) (p : α → Bool) :
    Inserted (xs.filter p) (added.filter p) (ys.filter p) := by
  induction h with
  | nil => exact .nil
  | @kept x _ _ _ _ ih =>
    cases hx : p x with
    | true => simpa [hx] using .kept ih
    | false => simpa [hx] using ih
  | @new x _ _ _ _ ih =>
    cases hx : p x with
    | true => simpa [hx] using .new ih
    | false => simpa [hx] using ih

theorem eq_of_nothing (h : Inserted xs [] ys) : ys = xs := by
  generalize hn : ([] : List α) = nothing at h
  induction h with
  | nil => rfl
  | kept _ ih => rw [ih hn]
  | new => cases hn

theorem eq_of_empty (h : Inserted [] added ys) : ys = added := by
  generalize hn : ([] : List α) = empty at h
  induction h with
  | nil => rfl
  | kept => cases hn
  | new _ ih => rw [ih hn]

end Inserted

/-- A semicolon, which comes without a diagnostic. -/
@[mk_iff]
structure Reading.IsSemicolon (r : Reading) : Prop where
  kind : r.token.kind = .symbol .semicolon
  report : r.report = none

/-! ## States -/

namespace Parsing

/-- The second parse did what the first one did, and made the diagnostics `added` besides. -/
structure State.Beside (added : List Diagnostic) (s t : State) : Prop where
  ending : s.stream.ending = t.stream.ending
  table : s.table = t.table
  strict : s.strict = t.strict
  problems : s.problems + added.length = t.problems
  tokenProblems : s.tokenProblems = t.tokenProblems
  reports : Inserted s.reports added t.reports

namespace State.Beside

variable {added : List Diagnostic} {s t : State}

theorem receive (h : s.Beside added t) (r : Reading) {rest rest' : Stream}
    (hrest : rest.ending = rest'.ending) : (s.receive r rest).Beside added (t.receive r rest') where
  ending := hrest
  table := h.table
  strict := h.strict
  problems := h.problems
  tokenProblems := congrArg (· + _) h.tokenProblems
  reports := by
    rw [State.reports_receive, State.reports_receive]
    exact List.append_nil added ▸ h.reports.append (.refl _)

/-- A token without a diagnostic that only the first parse reads. -/
theorem receive_left (h : s.Beside added t) {r : Reading} (hr : r.report = none) {rest : Stream}
    (hrest : rest.ending = s.stream.ending) : (s.receive r rest).Beside added t where
  ending := hrest.trans h.ending
  table := h.table
  strict := h.strict
  problems := h.problems
  tokenProblems := by simpa [State.receive, hr] using h.tokenProblems
  reports := by simpa [State.reports_receive, hr] using h.reports

/-- A token without a diagnostic that only the second parse reads. -/
theorem receive_right (h : s.Beside added t) {r : Reading} (hr : r.report = none) {rest : Stream}
    (hrest : rest.ending = t.stream.ending) : s.Beside added (t.receive r rest) where
  ending := h.ending.trans hrest.symm
  table := h.table
  strict := h.strict
  problems := h.problems
  tokenProblems := by simpa [State.receive, hr] using h.tokenProblems
  reports := by simpa [State.reports_receive, hr] using h.reports

theorem reported (h : s.Beside added t) (d : Diagnostic) :
    (s.reported d).Beside added (t.reported d) where
  ending := h.ending
  table := h.table
  strict := h.strict
  problems := by
    have := h.problems
    simp only [State.reported]
    omega
  tokenProblems := h.tokenProblems
  reports := by
    rw [State.reports_reported, State.reports_reported]
    exact List.append_nil added ▸ h.reports.append (.refl _)

/-- A diagnostic that only the second parse makes. -/
theorem reported_right (h : s.Beside added t) (d : Diagnostic) :
    s.Beside (added ++ [d]) (t.reported d) where
  ending := h.ending
  table := h.table
  strict := h.strict
  problems := by
    have := h.problems
    simp only [State.reported, List.length_append, List.length_singleton]
    omega
  tokenProblems := h.tokenProblems
  reports := by
    rw [State.reports_reported]
    exact List.append_nil s.reports ▸ h.reports.append (.new .nil)

theorem entered (h : s.Beside added t) (name : String) :
    (s.entered name).Beside added (t.entered name) :=
  { h with table := congrArg (·.enter (name : Text)) h.table }

theorem named (h : s.Beside added t) (a : Token) (assigned : Bool) :
    (s.named a assigned).Beside added (t.named a assigned) := by
  unfold State.named
  rw [h.strict, h.table]
  split
  · exact (h.reported _).entered _
  · exact h.entered _

end State.Beside

theorem Stream.next_of_cons {stream : Stream} {r : Reading} {xs : List Reading}
    (h : stream.items = r :: xs) : stream.next = .ok (r, ⟨xs, stream.ending⟩) := by
  simp only [Stream.next, h]

theorem Stream.eq_of_next {stream rest : Stream} {q r : Reading} {xs : List Reading}
    (hn : stream.next = .ok (r, rest)) (h : stream.items = q :: xs) :
    r = q ∧ rest = ⟨xs, stream.ending⟩ :=
  Prod.mk.inj (Except.ok.inj (hn.symm.trans (Stream.next_of_cons h)))

theorem Moves.eq_receive {s t : State} (h : Moves s t) {r : Reading} {xs : List Reading}
    (hi : s.stream.items = r :: xs) : t = s.receive r ⟨xs, s.stream.ending⟩ := by
  obtain ⟨-, hn⟩ := h
  obtain ⟨rfl, rfl⟩ := Stream.eq_of_next hn hi
  rfl

/-! ## Programs that start with a whole header -/

theorem consume_of_moves {s t : State} {kind : TokenKind} (p : Problem) (hk : s.current.kind = kind)
    (h : Moves s t) : consume kind p s = .ok s.current t := by
  obtain ⟨hc, hn⟩ := h
  have hpeek : peek s = .ok s.current.kind s := rfl
  rw [consume, bind_apply, hpeek]
  simp only [hk, if_true, advance_eq, hn]

theorem attempt_of_ok {α : Type} {followers : TokenKind → Bool} {p : Parser α} {s t : State} {a : α}
    (h : p s = .ok a t) : attempt followers p s = .ok (some a) t := by
  simp only [attempt, h]

theorem header_of_moves {s t u v : State} (hp : s.current.kind = .keyword .PROGRAM)
    (hs : Moves s t) (hi : t.current.kind = .identifier) (ht : Moves t u)
    (hc : u.current.kind = .symbol .semicolon) (hu : Moves (u.entered t.current.text) v) :
    header s = .ok (some t.current) v := by
  have hname : (do
      let _ ← consume (.keyword .PROGRAM) .expectingProgram
      let name ← consume .identifier .expectingProgramName
      enterName name.text
      return name : Parser Token) s = .ok t.current (u.entered t.current.text) := by
    rw [bind_apply, consume_of_moves _ hp hs]
    dsimp only
    rw [bind_apply, consume_of_moves _ hi ht]
    rfl
  rw [header, bind_apply, attempt_of_ok hname]
  dsimp only
  have hkind : (u.entered t.current.text).current.kind = .symbol .semicolon := hc
  rw [bind_apply, attempt_of_ok (consume_of_moves _ hkind hu)]
  rfl

theorem program_eq_of_header {s v : State} {o : Option Token} (h : header s = .ok o v) :
    program s = (do return programNode s.current.line o (← body) : Parser Node) v := by
  have hline : currentLine s = .ok (.int s.current.line) s := rfl
  rw [program, bind_apply, hline]
  dsimp only
  rw [bind_apply, h]
  cases o <;> rfl

/-- The state after a header and the first token of a body, with what is left of the stream. -/
def State.opened (table : Table) (strict : Bool) (program name semicolon opening : Reading)
    (rest : Stream) : State :=
  let blank : State := { current := program.token, stream := rest, table, strict }
  let named := ((blank.receive program rest).receive name rest).receive semicolon rest
  (named.entered name.token.text).receive opening rest

section Opened

variable {table : Table} {strict : Bool} {r₁ r₂ r₃ r₄ : Reading} {rest : List Reading}
  {ending : Ending}

/-- Where the header is whole, the program is the one of the body after it. -/
theorem parse?_eq_some_iff_body (h₁ : r₁.token.kind = .keyword .PROGRAM)
    (h₂ : r₂.token.kind = .identifier) (h₃ : r₃.token.kind = .symbol .semicolon) {n : Node}
    {t : State} :
    parse? ⟨r₁ :: r₂ :: r₃ :: r₄ :: rest, ending⟩ table strict = some (n, t) ↔
      ∃ m, body (.opened table strict r₁ r₂ r₃ r₄ ⟨rest, ending⟩) = .ok m t ∧
        n = programNode r₁.token.line (some r₂.token) m := by
  -- The states at the start, behind `PROGRAM`, and behind the name.
  let s : State := State.receive { current := r₁.token, stream := ⟨[], ending⟩, table, strict } r₁
    ⟨r₂ :: r₃ :: r₄ :: rest, ending⟩
  let u : State := s.receive r₂ ⟨r₃ :: r₄ :: rest, ending⟩
  let v : State := u.receive r₃ ⟨r₄ :: rest, ending⟩
  have hs : Moves s u := ⟨by simp [s, State.receive, h₁], rfl⟩
  have hu : Moves u v := ⟨by simp [u, State.receive, h₂], rfl⟩
  have hv : Moves (v.entered u.current.text)
      ((v.entered u.current.text).receive r₄ ⟨rest, ending⟩) :=
    ⟨by simp [v, State.entered, State.receive, h₃], rfl⟩
  have hheader := header_of_moves h₁ hs h₂ hu h₃ hv
  have hstart : State.start ⟨r₁ :: r₂ :: r₃ :: r₄ :: rest, ending⟩ table strict = .ok s := rfl
  have hprogram : program s = (do return programNode r₁.token.line (some r₂.token) (← body) :
      Parser Node) (.opened table strict r₁ r₂ r₃ r₄ ⟨rest, ending⟩) :=
    program_eq_of_header hheader
  rw [bind_apply] at hprogram
  constructor
  · intro hp
    obtain ⟨s', hs', hn⟩ := parse?_eq_some hp
    obtain rfl := Except.ok.inj (hstart.symm.trans hs')
    rw [hprogram] at hn
    cases hb : body (.opened table strict r₁ r₂ r₃ r₄ ⟨rest, ending⟩) with
    | ok m w =>
      rw [hb] at hn
      cases hn
      exact ⟨m, rfl, rfl⟩
    | error e w =>
      rw [hb] at hn
      cases hn
  · rintro ⟨m, hb, rfl⟩
    rw [hb] at hprogram
    exact parse?_of_program hstart hprogram

theorem BuildsBody.opens {s t : State} {n : Node} (h : BuildsBody s n t) (ht : t.problems = 0) :
    s.current.kind = .keyword .BEGIN := by
  cases h with
  | nothing => simp [State.reported] at ht
  | compound hbegin hlist hend hperiod =>
    cases hbegin with
    | found hk _ => exact hk
    | missing =>
      have hrest : Reaches _ t :=
        hlist.reaches.trans ((hend.reaches rfl).trans (hperiod.reaches rfl))
      have hle := hrest.problems_le
      simp [ht, State.reported] at hle

/-- A program without problems starts with a whole header, and `BEGIN` after it. -/
theorem header_of_parse? {front : List Reading} (hfront : front.length = 4) {n : Node} {t : State}
    (hp : parse? ⟨front ++ rest, ending⟩ table strict = some (n, t)) (ht : t.problems = 0) :
    ∃ r₁ r₂ r₃ r₄, front = [r₁, r₂, r₃, r₄] ∧ r₁.token.kind = .keyword .PROGRAM ∧
      r₂.token.kind = .identifier ∧ r₃.token.kind = .symbol .semicolon ∧
      r₄.token.kind = .keyword .BEGIN := by
  obtain ⟨r₁, r₂, r₃, r₄, rfl⟩ : ∃ r₁ r₂ r₃ r₄, front = [r₁, r₂, r₃, r₄] := by
    obtain ⟨r₁, rest₁, rfl⟩ := List.exists_cons_of_length_eq_add_one hfront
    obtain ⟨r₂, r₃, r₄, rfl⟩ := List.length_eq_three.1 (Nat.succ.inj hfront)
    exact ⟨r₁, r₂, r₃, r₄, rfl⟩
  obtain ⟨s, hs, hn⟩ := parse?_eq_some hp
  obtain ⟨hheader, hbody⟩ := ((meets_program s).of_ok hn).2
  obtain rfl := Except.ok.inj hs
  cases hheader with
  | noName h => exact absurd (h.problems.trans_le hbody.reaches.problems_le) (by simp [ht])
  | noSemicolon _ _ _ _ h =>
    exact absurd (h.problems.trans_le hbody.reaches.problems_le) (by simp [ht])
  | whole h₁ hm h₂ hm' h₃ hm'' =>
    obtain rfl := hm.eq_receive rfl
    obtain rfl := hm'.eq_receive rfl
    obtain rfl := hm''.eq_receive rfl
    exact ⟨r₁, r₂, r₃, r₄, rfl, h₁, h₂, h₃, hbody.opens ht⟩

end Opened

end Parsing

end MiniPascal
