import Mathlib.Logic.Relation
import Mathlib.Data.List.TakeWhile
import MiniPascal.Parsing.Statement

/-!
# What parsing does to the state

Whatever a parser does, it does in steps of four sorts: it moves over the current token, which is
never the end of the text; it reports a problem of the grammar at the current token; it moves over
an undeclared name and reports it, in strict mode only; and it enters a name into the table.
`Reaches` is any number of such steps, and what holds along every parse is derived from it.

**The tokens ahead** (`State.ahead`). A parser can use the tokens up to the first end of the text,
wherever that stands, and no others. `Passed w s t` says that the tokens `w` lie between two states:
they are the difference of the tokens ahead, and the stream has lost as many.

**Nothing is read past the end** (`Reaches.readFrom`). The tokens read are the first ones of the
stream, and only the last of them can be the end of the text.
-/

namespace MiniPascal

/-- The token of an event. -/
def Event.token? : Event → Option Token
  | .read t => some t
  | .report _ => none

theorem Event.filterMap_token?_ofReading (r : Reading) :
    (Event.ofReading r).filterMap Event.token? = [r.token] := by
  unfold Event.ofReading
  split <;> rfl

/-- What is left of a stream after a token. -/
theorem Stream.next_eq_ok {s rest : Stream} {r : Reading} (h : s.next = .ok (r, rest)) :
    (s.items = r :: rest.items ∧ rest.ending = s.ending) ∨
      (s.items = [] ∧ rest = s ∧ ∃ line, s.ending = .endOfFile line ∧
        r = { token := .endOfFile line }) := by
  obtain ⟨items, ending⟩ := s
  unfold Stream.next at h
  split at h
  · simp only [Except.ok.injEq, Prod.mk.injEq] at h
    obtain ⟨rfl, rfl⟩ := h
    simp_all
  · simp only [Except.ok.injEq, Prod.mk.injEq] at h
    obtain ⟨rfl, rfl⟩ := h
    simp_all
  · simp at h

theorem Stream.next_eq_error {s : Stream} {fault : Decimal.NumeralFault}
    (h : s.next = .error fault) : s.ending = .unreadable fault := by
  unfold Stream.next at h
  split at h <;> simp_all

namespace Parsing

/-! ## Steps -/

/-- The state with a diagnostic made. -/
def State.reported (s : State) (d : Diagnostic) : State :=
  { s with problems := s.problems + 1, log := s.log.push (.report d) }

@[simp] theorem State.current_reported (s : State) (d : Diagnostic) :
    (s.reported d).current = s.current := rfl

@[simp] theorem State.stream_reported (s : State) (d : Diagnostic) :
    (s.reported d).stream = s.stream := rfl

/-- The state with a name entered. -/
def State.entered (s : State) (name : String) : State :=
  { s with table := s.table.enter name }

/-- One step of parsing. -/
inductive Step : State → State → Prop
  /-- The current token is moved over. -/
  | read {s : State} {r : Reading} {rest : Stream} :
      s.current.kind ≠ .endOfFile → s.stream.next = .ok (r, rest) → Step s (s.receive r rest)
  /-- A problem of the grammar is reported at the current token. -/
  | report {s : State} {p : Problem} :
      p.stage = .parsing → Step s (s.reported (s.current.diagnose p))
  /-- A name that is not in the table is moved over and reported. -/
  | undeclared {s : State} {r : Reading} {rest : Stream} :
      s.strict = true → s.current.kind = .identifier →
      s.table.contains s.current.text = false → s.stream.next = .ok (r, rest) →
      Step s ((s.receive r rest).reported (s.current.diagnose .undeclaredIdentifier))
  /-- A name is entered. -/
  | enter {s : State} (name : String) : Step s (s.entered name)

/-- Any number of steps. -/
abbrev Reaches : State → State → Prop := Relation.ReflTransGen Step

/-- What every step keeps, every parse keeps. -/
theorem Reaches.induct {P : State → Prop} (step : ∀ {s t : State}, Step s t → P s → P t)
    {s t : State} (h : Reaches s t) (hs : P s) : P t := by
  induction h with
  | refl => exact hs
  | tail _ hst ih => exact step hst ih

theorem Reaches.strict_eq {s t : State} (h : Reaches s t) : t.strict = s.strict :=
  h.induct (P := fun u => u.strict = s.strict) (fun hst hs => by cases hst <;> exact hs) rfl

/-- The count of problems never falls. -/
theorem Reaches.problems_le {s t : State} (h : Reaches s t) : s.problems ≤ t.problems :=
  h.induct (P := fun u => s.problems ≤ u.problems)
    (fun hst hs => by
      cases hst <;> simp only [State.receive, State.reported, State.entered] <;> omega)
    (Nat.le_refl _)

/-! ## Syntax errors -/

/-- A problem of the grammar has been reported. -/
def State.HasSyntaxError (s : State) : Prop := ∃ d ∈ s.reports, d.problem.stage = .parsing

theorem State.hasSyntaxError_iff {s : State} :
    s.HasSyntaxError ↔ s.reports.filter (·.problem.stage = .parsing) ≠ [] := by
  simp [State.HasSyntaxError, List.filter_eq_nil_iff]

theorem State.reports_receive (s : State) (r : Reading) (rest : Stream) :
    (s.receive r rest).reports = s.reports ++ r.report.toList := by
  obtain ⟨token, report⟩ := r
  cases report <;> simp [State.reports, State.receive, Event.ofReading, Event.diagnostic?]

theorem State.mem_reports_receive {s : State} {d : Diagnostic} (h : d ∈ s.reports) (r : Reading)
    (rest : Stream) : d ∈ (s.receive r rest).reports := by
  rw [State.reports_receive]
  exact List.mem_append_left _ h

theorem State.reports_reported (s : State) (d : Diagnostic) :
    (s.reported d).reports = s.reports ++ [d] := by
  simp [State.reports, State.reported, Event.diagnostic?]

/-- What has been reported stays reported. -/
theorem Reaches.hasSyntaxError {s t : State} (h : Reaches s t) (hs : s.HasSyntaxError) :
    t.HasSyntaxError := by
  refine h.induct (P := State.HasSyntaxError) ?_ hs
  rintro s t hst ⟨d, hd, hp⟩
  refine ⟨d, ?_, hp⟩
  cases hst with
  | read => exact State.mem_reports_receive hd _ _
  | report =>
    rw [State.reports_reported]
    exact List.mem_append_left _ hd
  | undeclared =>
    rw [State.reports_reported]
    exact List.mem_append_left _ (State.mem_reports_receive hd _ _)
  | enter => exact hd

theorem State.hasSyntaxError_reported (s : State) {p : Problem} (hp : p.stage = .parsing) :
    (s.reported (s.current.diagnose p)).HasSyntaxError :=
  ⟨s.current.diagnose p, by simp [State.reports_reported], hp⟩

/-! ## The tokens ahead -/

/-- The tokens from the current one to the first end of the text. -/
def State.ahead (s : State) : List Token :=
  (s.current :: s.stream.items.map (·.token)).takeWhile (·.kind != .endOfFile)

theorem State.ahead_of_end {s : State} (h : s.current.kind = .endOfFile) : s.ahead = [] := by
  simp [State.ahead, h]

theorem State.ahead_eq_nil_iff {s : State} : s.ahead = [] ↔ s.current.kind = .endOfFile := by
  simp only [State.ahead, List.takeWhile_cons]
  split <;> simp_all

theorem State.ahead_of_ne {s : State} (h : s.current.kind ≠ .endOfFile) :
    s.ahead = s.current :: (s.stream.items.map (·.token)).takeWhile (·.kind != .endOfFile) := by
  simp [State.ahead, h]

theorem State.ne_endOfFile_of_ahead {s : State} {x : Token} {w : List Token}
    (h : s.ahead = x :: w) : s.current.kind ≠ .endOfFile := by
  rw [Ne, ← State.ahead_eq_nil_iff, h]
  exact List.cons_ne_nil _ _

/-- The first token ahead is the current one. -/
theorem State.current_of_ahead {s : State} {x : Token} {w : List Token} (h : s.ahead = x :: w) :
    s.current = x := by
  rw [State.ahead_of_ne (State.ne_endOfFile_of_ahead h)] at h
  exact (List.cons.inj h).1

theorem State.length_ahead_le (s : State) : s.ahead.length ≤ s.stream.items.length + 1 := by
  have h := (List.takeWhile_sublist (·.kind != .endOfFile)
    (l := s.current :: s.stream.items.map (·.token))).length_le
  simpa [State.ahead] using h

@[simp] theorem State.ahead_entered (s : State) (name : String) :
    (s.entered name).ahead = s.ahead := rfl

/-- Moving on takes the current token away from those ahead. -/
theorem State.ahead_receive {s : State} {r : Reading} {rest : Stream}
    (hc : s.current.kind ≠ .endOfFile) (hn : s.stream.next = .ok (r, rest)) :
    s.ahead = s.current :: (s.receive r rest).ahead := by
  rw [State.ahead_of_ne hc]
  congr 1
  rcases Stream.next_eq_ok hn with ⟨hi, -⟩ | ⟨hi, -, line, -, rfl⟩
  · simp [State.ahead, State.receive, hi]
  · rw [hi, List.map_nil, List.takeWhile_nil]
    exact (State.ahead_of_end rfl).symm

/-! ## Positions -/

/-- The tokens `w` lie between the two states. -/
structure Passed (w : List Token) (s t : State) : Prop where
  ahead : s.ahead = w ++ t.ahead
  ending : t.stream.ending = s.stream.ending
  items : t.stream.items = s.stream.items.drop w.length
  /-- After the last token of the stream comes the end of the text. -/
  current : (s.current :: s.stream.items.map (·.token))[w.length]? = some t.current ∨
    s.stream.items.length < w.length ∧
      ∃ line, s.stream.ending = .endOfFile line ∧ t.current = .endOfFile line

theorem Passed.refl (s : State) : Passed [] s s where
  ahead := rfl
  ending := rfl
  items := by simp
  current := by simp

/-- Where `t` is reached from `s` without moving, and `u` differs from `s` in no token. -/
theorem Passed.congr {w : List Token} {s t u : State} (h : Passed w s t)
    (hc : u.current = t.current) (hs : u.stream = t.stream) : Passed w s u where
  ahead := by rw [h.ahead, State.ahead, State.ahead, hc, hs]
  ending := by rw [hs, h.ending]
  items := by rw [hs, h.items]
  current := by rw [hc]; exact h.current

theorem Passed.read {w : List Token} {s t : State} {r : Reading} {rest : Stream}
    (h : Passed w s t) (hc : t.current.kind ≠ .endOfFile) (hn : t.stream.next = .ok (r, rest)) :
    Passed (w ++ [t.current]) s (t.receive r rest) where
  ahead := by rw [h.ahead, State.ahead_receive hc hn, List.append_assoc, List.singleton_append]
  ending := by
    rcases Stream.next_eq_ok hn with ⟨-, he⟩ | ⟨-, rfl, -⟩
    · exact he.trans h.ending
    · exact h.ending
  items := by
    rcases Stream.next_eq_ok hn with ⟨hi, -⟩ | ⟨hi, rfl, -⟩
    · have hd := h.items
      rw [hi] at hd
      rw [List.length_append, List.length_singleton, ← List.drop_drop, ← hd]
      rfl
    · have hd := h.items
      rw [hi] at hd
      -- At the end of the text the stream stays as it is.
      rw [List.length_append, ← List.drop_drop, ← hd]
      simpa [State.receive] using hi
  current := by
    have hd := h.items
    rcases Stream.next_eq_ok hn with ⟨hi, -⟩ | ⟨hi, -, line, he, rfl⟩
    · left
      rw [hi] at hd
      have hg : s.stream.items[w.length]? = some r := by
        rw [← List.head?_drop, ← hd]; rfl
      simp [State.receive, hg]
    · rw [hi] at hd
      right
      refine ⟨?_, line, h.ending ▸ he, rfl⟩
      have := List.drop_eq_nil_iff.1 hd.symm
      simp only [List.length_append, List.length_singleton]
      omega

/-- Every parse moves over some of the tokens ahead. -/
theorem Reaches.passed {s t : State} (h : Reaches s t) : ∃ w, Passed w s t := by
  refine h.induct (P := fun u => ∃ w, Passed w s u) (fun hst hs => ?_) ⟨[], Passed.refl s⟩
  obtain ⟨w, hw⟩ := hs
  cases hst with
  | read hc hn => exact ⟨_, hw.read hc hn⟩
  | report => exact ⟨w, hw.congr rfl rfl⟩
  | undeclared _ hk _ hn => exact ⟨_, (hw.read (by rw [hk]; decide) hn).congr rfl rfl⟩
  | enter name => exact ⟨w, hw.congr rfl rfl⟩

theorem Reaches.ending_eq {s t : State} (h : Reaches s t) : t.stream.ending = s.stream.ending :=
  h.passed.elim fun _ hw => hw.ending

/-- The tokens between two states are determined by those ahead. -/
theorem Reaches.passed_of_ahead {s t : State} (h : Reaches s t) {w : List Token}
    (hw : s.ahead = w ++ t.ahead) : Passed w s t := by
  obtain ⟨v, hv⟩ := h.passed
  obtain rfl : v = w := List.append_cancel_right (hv.ahead.symm.trans hw)
  exact hv

theorem Reaches.length_ahead_le {s t : State} (h : Reaches s t) :
    t.ahead.length ≤ s.ahead.length := by
  obtain ⟨w, hw⟩ := h.passed
  simp [hw.ahead]

/-- A parse that ends at another kind of token has moved. -/
theorem Reaches.length_ahead_lt {s t : State} (h : Reaches s t)
    (hne : t.current.kind ≠ s.current.kind) : t.ahead.length < s.ahead.length := by
  obtain ⟨w, hw⟩ := h.passed
  cases w with
  | nil =>
    have hc := hw.current
    simp only [List.length_nil, List.getElem?_cons_zero, Option.some.injEq, Nat.not_lt_zero,
      false_and, or_false] at hc
    exact absurd (congrArg Token.kind hc.symm) hne
  | cons x w =>
    simp only [hw.ahead, List.length_append, List.length_cons]
    omega

/-! ## The tokens read -/

/-- The tokens read so far, in order. -/
def State.reads (s : State) : List Token := s.log.toList.filterMap Event.token?

theorem State.reads_receive (s : State) (r : Reading) (rest : Stream) :
    (s.receive r rest).reads = s.reads ++ [r.token] := by
  simp [State.reads, State.receive, Event.filterMap_token?_ofReading]

@[simp] theorem State.reads_reported (s : State) (d : Diagnostic) :
    (s.reported d).reads = s.reads := by
  simp [State.reads, State.reported, Event.token?]

/-- What has been read of a stream: its first tokens, with the current one last, and perhaps the end
of the text after all of them. Only the last token read can be the end of the text. -/
structure State.ReadFrom (s : State) (stream : Stream) : Prop where
  current : ∃ earlier, s.reads = earlier ++ [s.current] ∧ ∀ t ∈ earlier, t.kind ≠ .endOfFile
  ending : s.stream.ending = stream.ending
  rest : stream.items.map (·.token) = s.reads ++ s.stream.items.map (·.token) ∨
    s.stream.items = [] ∧ ∃ line, stream.ending = .endOfFile line ∧
      s.reads = stream.items.map (·.token) ++ [.endOfFile line]

theorem State.ReadFrom.receive {s : State} {stream : Stream} (h : s.ReadFrom stream)
    (hc : s.current.kind ≠ .endOfFile) {r : Reading} {rest : Stream}
    (hn : s.stream.next = .ok (r, rest)) : (s.receive r rest).ReadFrom stream := by
  obtain ⟨⟨earlier, hr, he⟩, hend, hrest⟩ := h
  refine ⟨⟨s.reads, State.reads_receive s r rest, fun t ht => ?_⟩, ?_, ?_⟩
  · rw [hr, List.mem_append, List.mem_singleton] at ht
    rcases ht with ht | rfl
    · exact he t ht
    · exact hc
  · rcases Stream.next_eq_ok hn with ⟨-, hq⟩ | ⟨-, rfl, -⟩
    · exact hq.trans hend
    · exact hend
  · -- All tokens of the stream were read only if the current one is not the end of the text.
    have hfirst : stream.items.map (·.token) = s.reads ++ s.stream.items.map (·.token) := by
      refine hrest.resolve_right ?_
      rintro ⟨-, line, -, hq⟩
      rw [hr] at hq
      have hlast := congrArg List.getLast? hq
      simp only [List.getLast?_concat, Option.some.injEq] at hlast
      exact hc (by rw [hlast]; rfl)
    rw [State.reads_receive]
    rcases Stream.next_eq_ok hn with ⟨hi, -⟩ | ⟨hi, rfl, line, hq, rfl⟩
    · left
      rw [hfirst, hi]
      simp [State.receive]
    · right
      refine ⟨hi, line, hend ▸ hq, ?_⟩
      rw [hfirst, hi]
      simp

theorem Reaches.readFrom {s t : State} {stream : Stream} (h : Reaches s t)
    (hs : s.ReadFrom stream) : t.ReadFrom stream := by
  refine h.induct (P := fun u => u.ReadFrom stream) (fun hst hs => ?_) hs
  cases hst with
  | read hc hn => exact hs.receive hc hn
  | report => exact ⟨by simpa using hs.current, hs.ending, by simpa using hs.rest⟩
  | undeclared _ hk _ hn =>
    have hq := hs.receive (by rw [hk]; decide) hn
    exact ⟨by simpa using hq.current, hq.ending, by simpa using hq.rest⟩
  | enter name => exact ⟨hs.current, hs.ending, hs.rest⟩

/-- The tokens read are the first ones of the stream, or all of them and the end of the text. -/
theorem State.ReadFrom.isPrefix {s : State} {items : List Reading} {line : Int}
    (h : s.ReadFrom ⟨items, .endOfFile line⟩) :
    s.reads <+: items.map (·.token) ++ [.endOfFile line] := by
  rcases h.rest with hq | ⟨-, line', hl, hq⟩
  · exact ⟨s.stream.items.map (·.token) ++ [.endOfFile line], by rw [← List.append_assoc, ← hq]⟩
  · cases hl
    exact ⟨[], by rw [hq, List.append_nil]⟩

end Parsing

end MiniPascal
