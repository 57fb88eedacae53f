import MiniPascal.Proofs.Parsing.Total
import MiniPascal.Proofs.Token.Layout

/-!
# Every diagnostic is counted

A parser keeps two counts: of the diagnostics that it makes itself, and of those that come with the
tokens it reads.

**Nothing is counted twice or left out** (`Reaches.counted`). Whatever steps parsing takes, the two
counts together are the number of diagnostics made.

**Every error token is reported once** (`Reaches.tokensReported`). On a program text the diagnostics
of scanning are those of the error tokens that were read, in their order, each with the line and the
text of its token.
-/

namespace MiniPascal

/-- If what is still to be read is regular, then so are the next reading and what is left. -/
theorem Reading.regular_of_next {s rest : Stream} {r : Reading}
    (hs : ∀ q ∈ s.items, q.Regular) (hn : s.next = .ok (r, rest)) :
    r.Regular ∧ ∀ q ∈ rest.items, q.Regular := by
  obtain ⟨hi, -⟩ | ⟨-, rfl, line, -, rfl⟩ := Stream.next_eq_ok hn
  · rw [hi] at hs
    exact ⟨hs r (by simp), fun q hq => hs q (by simp [hq])⟩
  · exact ⟨.inl ⟨by simp [Token.endOfFile], rfl⟩, hs⟩

namespace Parsing

/-! ## Diagnostics and tokens that are read -/

/-- The diagnostics made when tokens were read. -/
def State.tokenReports (s : State) : List Diagnostic :=
  s.reports.filter (·.problem.stage = .scanning)

/-- The error tokens that were read. -/
def State.errorTokens (s : State) : List Token := s.reads.filter (·.kind = .error)

/-! ## The counts -/

theorem State.counted_receive {s : State} (hs : s.errorCount = s.reports.length) (r : Reading)
    (rest : Stream) : (s.receive r rest).errorCount = (s.receive r rest).reports.length := by
  rw [State.reports_receive, List.length_append, ← hs]
  simp only [State.errorCount, State.receive]
  cases r.report <;> simp
  omega

theorem State.counted_reported {s : State} (hs : s.errorCount = s.reports.length)
    (d : Diagnostic) : (s.reported d).errorCount = (s.reported d).reports.length := by
  rw [State.reports_reported, List.length_append, ← hs]
  simp only [State.errorCount, State.reported, List.length_singleton]
  omega

/-- **Every diagnostic is counted once**, along every parse. -/
theorem Reaches.counted {s t : State} (h : Reaches s t) (hs : s.errorCount = s.reports.length) :
    t.errorCount = t.reports.length := by
  refine h.induct (P := fun u => u.errorCount = u.reports.length) (fun hst hu => ?_) hs
  cases hst with
  | read => exact State.counted_receive hu _ _
  | report => exact State.counted_reported hu _
  | undeclared => exact State.counted_reported (State.counted_receive hu _ _) _
  | enter => exact hu

/-! ## The diagnostics of tokens -/

/-- Tokens are reported where they are read, if they are error tokens. What is still to be read is
regular. -/
structure State.TokensReported (s : State) : Prop where
  reported : s.tokenReports.map (fun d => (d.line, d.text)) =
    s.errorTokens.map fun t => (t.line, t.text)
  regular : ∀ r ∈ s.stream.items, r.Regular

theorem stage_ofFirst (c : Char) : (Problem.ofFirst c).stage = .scanning := by
  unfold Problem.ofFirst
  by_cases hd : c.isDigit = true
  · simp [hd, Problem.stage]
  · by_cases hq : c = '\'' <;> simp [hd, hq, Problem.stage]

/-- A regular reading is reported if it is an error token. -/
theorem reported_of_regular {r : Reading} (h : r.Regular) :
    (r.report.toList.filter (·.problem.stage = .scanning)).map (fun d => (d.line, d.text)) =
      ([r.token].filter (·.kind = .error)).map fun t => (t.line, t.text) := by
  obtain ⟨hkind, hreport⟩ | ⟨c, cs, -, hkind, hreport⟩ := h
  · simp [hkind, hreport]
  · simp [hkind, hreport, Token.diagnose, stage_ofFirst]

theorem State.TokensReported.receive {s : State} (hs : s.TokensReported) {r : Reading}
    {rest : Stream} (hn : s.stream.next = .ok (r, rest)) :
    (s.receive r rest).TokensReported := by
  have hregular := Reading.regular_of_next hs.regular hn
  refine ⟨?_, hregular.2⟩
  simp only [State.tokenReports, State.errorTokens, State.reports_receive, State.reads_receive,
    List.filter_append, List.map_append]
  rw [reported_of_regular hregular.1]
  exact congrArg (· ++ _) hs.reported

theorem State.TokensReported.reported_of_ne {s : State} (hs : s.TokensReported) {d : Diagnostic}
    (hd : d.problem.stage ≠ .scanning) : (s.reported d).TokensReported := by
  refine ⟨?_, hs.regular⟩
  simpa [State.tokenReports, State.errorTokens, State.reports_reported, hd] using hs.reported

/-- **Every error token is reported once**, along every parse. -/
theorem Reaches.tokensReported {s t : State} (h : Reaches s t) (hs : s.TokensReported) :
    t.TokensReported := by
  refine h.induct (P := State.TokensReported) (fun hst hu => ?_) hs
  cases hst with
  | read _ hn => exact hu.receive hn
  | report hp => exact hu.reported_of_ne (by simp [Token.diagnose, hp])
  | undeclared _ _ _ hn =>
    exact (hu.receive hn).reported_of_ne (by simp [Token.diagnose, Problem.stage])
  | enter => exact ⟨hu.reported, hu.regular⟩

/-! ## From the start -/

section Start

variable {stream : Stream} {table : Table} {strict : Bool} {s : State}

theorem State.counted_start (h : State.start stream table strict = .ok s) :
    s.errorCount = s.reports.length := by
  obtain ⟨r, rest, -, rfl⟩ := State.start_eq_ok h
  exact State.counted_receive rfl r rest

theorem State.tokensReported_start (h : State.start stream table strict = .ok s)
    (hr : ∀ r ∈ stream.items, r.Regular) : s.TokensReported := by
  obtain ⟨r, rest, hn, rfl⟩ := State.start_eq_ok h
  exact State.TokensReported.receive ⟨rfl, hr⟩ hn

end Start

/-- What is parsed, with the state from which it was. -/
theorem parse?_eq_some {stream : Stream} {table : Table} {strict : Bool} {n : Node} {t : State}
    (h : parse? stream table strict = some (n, t)) :
    ∃ s, State.start stream table strict = .ok s ∧ program s = .ok n t := by
  unfold parse? at h
  cases hs : State.start stream table strict with
  | error fault => rw [hs] at h; cases h
  | ok s =>
    rw [hs] at h
    dsimp only at h
    cases hp : program s with
    | error e u => rw [hp] at h; cases h
    | ok m u =>
      rw [hp] at h
      obtain ⟨rfl, rfl⟩ := Prod.mk.inj (Option.some.inj h)
      exact ⟨s, rfl, hp⟩

end Parsing

end MiniPascal
