import MiniPascal.Proofs.Parsing.Beside
import MiniPascal.Proofs.Parsing.TandemParse

/-!
# Repeated semicolons

A parser that moves over a semicolon between statements, or between the branches of a selection,
moves over all the semicolons there. So a parse of a stream goes in tandem with a parse of the same
stream with further semicolons after semicolons (`Tandem.repeats`): they are abreast in front of
every run of semicolons, and abreast again behind it.

**Further semicolons do not matter** (`parse?_repeats`). After the header and the `BEGIN` of a
program without errors, any number of semicolons can be added after any semicolon. The tree with its
lines and the table stay the same, and there are still no errors.
-/

namespace MiniPascal.Parsing

/-- The second list is the first one with further semicolons after semicolons. -/
inductive Repeats : List Reading → List Reading → Prop
  | nil : Repeats [] []
  | keep (r : Reading) {xs ys : List Reading} : Repeats xs ys → Repeats (r :: xs) (r :: ys)
  | more {r : Reading} {run xs ys : List Reading} :
      r.token.kind = .symbol .semicolon → (∀ q ∈ run, q.IsSemicolon) → Repeats xs ys →
      Repeats (r :: xs) (r :: (run ++ ys))

/-- The second list may start with further semicolons, if it follows a token of the kind. -/
def RepeatsAfter (kind : TokenKind) (xs ys : List Reading) : Prop :=
  ∃ run rest, ys = run ++ rest ∧ (∀ q ∈ run, q.IsSemicolon) ∧
    (run ≠ [] → kind = .symbol .semicolon) ∧ Repeats xs rest

theorem Repeats.after {xs ys : List Reading} (h : Repeats xs ys) (kind : TokenKind) :
    RepeatsAfter kind xs ys :=
  ⟨[], ys, rfl, by simp, by simp, h⟩

/-- The parses are at the same token, and the second has further semicolons ahead. -/
structure State.Repeats (s t : State) : Prop where
  beside : s.Beside [] t
  current : s.current = t.current
  items : RepeatsAfter s.current.kind s.stream.items t.stream.items

namespace State.Repeats

variable {s t : State}

/-- The same token is read in both parses, if no further semicolons are next in the second. -/
theorem next (h : s.Beside [] t) (hi : Parsing.Repeats s.stream.items t.stream.items)
    {r : Reading} {rest : Stream} (hn : s.stream.next = .ok (r, rest)) :
    ∃ rest', t.stream.next = .ok (r, rest') ∧ (s.receive r rest).Repeats (t.receive r rest') := by
  have hreceive {xs : List Reading} (hx : t.stream.items = r :: xs)
      (he : rest.ending = s.stream.ending) (hr : RepeatsAfter r.token.kind rest.items xs) :
      ∃ rest', t.stream.next = .ok (r, rest') ∧ (s.receive r rest).Repeats (t.receive r rest') :=
    ⟨_, Stream.next_of_cons hx, h.receive r (he.trans h.ending), rfl, hr⟩
  obtain ⟨hs, he⟩ | ⟨hs, rfl, line, he, rfl⟩ := Stream.next_eq_ok hn
  · rw [hs] at hi
    generalize ht : t.stream.items = items at hi
    cases hi with
    | keep _ hxs => exact hreceive ht he (hxs.after _)
    | more hr hrun hxs => exact hreceive ht he ⟨_, _, rfl, hrun, fun _ => hr, hxs⟩
  · -- Both streams are at their end.
    have ht : t.stream.items = [] := by
      rw [hs] at hi
      generalize t.stream.items = items at hi
      cases hi
      rfl
    have hnext : t.stream.next = .ok ({ token := .endOfFile line }, t.stream) := by
      simp only [Stream.next, ht, ← h.ending, he]
    refine ⟨_, hnext, h.receive _ h.ending, rfl, ?_⟩
    rw [State.receive, State.receive, hs, ht]
    exact Parsing.Repeats.nil.after _

/-- A run of semicolons is moved over in both parses. -/
theorem skipSemicolons (h : s.Beside [] t) {u : State} (hs : s.current.kind = .symbol .semicolon)
    (ht : t.current.kind = .symbol .semicolon)
    (hi : RepeatsAfter (.symbol .semicolon) s.stream.items t.stream.items)
    (hu : Parsing.skipSemicolons s = .ok () u) :
    ∃ v, Parsing.skipSemicolons t = .ok () v ∧ u.Repeats v := by
  -- The stream of the second parse gets shorter with every semicolon that it moves over.
  generalize hcount : t.stream.items.length = count
  induction count using Nat.strong_induction_on generalizing s t with
  | h count ih =>
  obtain ⟨run, rest, hrest, hrun, -, hi⟩ := hi
  cases run with
  | cons q run =>
    -- A further semicolon, which only the second parse moves over.
    obtain ⟨hq, hrun⟩ := List.forall_mem_cons.1 hrun
    have hnext := Stream.next_of_cons hrest
    rw [Tandem.skipSemicolons_of_next ht hnext]
    refine ih (run ++ rest).length ?_ (h.receive_right hq.report rfl) hs hq.kind ?_ hu rfl
    · simp [← hcount, hrest]
    · exact ⟨run, rest, rfl, hrun, fun _ => rfl, hi⟩
  | nil =>
    cases hn : s.stream.next with
    | error fault =>
      rw [Tandem.skipSemicolons_of_error hs hn] at hu
      cases hu
    | ok x =>
      obtain ⟨r, after⟩ := x
      obtain ⟨after', hn', hr⟩ := next h (hrest ▸ hi) hn
      rw [Tandem.skipSemicolons_of_next hs hn] at hu
      rw [Tandem.skipSemicolons_of_next ht hn']
      by_cases hk : r.token.kind = .symbol .semicolon
      · refine ih after'.items.length ?_ hr.beside hk hk (hk ▸ hr.items) hu rfl
        obtain ⟨hitems, -⟩ | ⟨-, -, line, -, rfl⟩ := Stream.next_eq_ok hn'
        · simp [← hcount, hitems]
        · cases hk
      · rw [Tandem.skipSemicolons_of_ne (s := s.receive r after) hk] at hu
        obtain rfl := (EStateM.Result.ok.inj hu).2
        exact ⟨_, Tandem.skipSemicolons_of_ne hk, hr⟩

theorem reported (h : s.Repeats t) (d : Diagnostic) : (s.reported d).Repeats (t.reported d) where
  beside := h.beside.reported d
  current := h.current
  items := h.items

theorem named (h : s.Repeats t) (a : Token) (assigned : Bool) :
    (s.named a assigned).Repeats (t.named a assigned) where
  beside := h.beside.named a assigned
  current := by simpa using h.current
  items := by simpa using h.items

end State.Repeats

/-- Parses of streams that differ in repeated semicolons. -/
def Tandem.repeats : Tandem where
  toWording := .same
  abreast := State.Repeats
  parted _ _ := False
  alone _ := False
  passes k := k ≠ .symbol .semicolon
  blocks := True
  halts := True
  passesPlain h := by rintro rfl; cases h
  passesEnd _ := by decide
  passesUntil _ := by decide
  aloneToken _ h := h.elim
  aloneHalts := False.elim
  aloneBlocks := False.elim
  aloneReceive _ _ := id
  aloneReported _ := id
  aloneNamed _ _ := id
  aloneEntered _ := id
  current h := h.current
  opens _ _ := trivial
  next h hpass _ hn := by
    obtain ⟨run, rest, hrest, -, hrun, hi⟩ := h.items
    obtain rfl : run = [] := by
      by_contra hne
      exact hpass (hrun hne)
    obtain ⟨rest', hn', hs⟩ := State.Repeats.next h.beside (hrest ▸ hi) hn
    exact .inr ⟨_, rest', hn', .inl hs⟩
  nextFault _ _ := .inl trivial
  reported _ h hd := .inr ⟨fun _ _ => id, hd ▸ h.reported _⟩
  named assigned h ht := .inr (ht ▸ h.named _ assigned)
  entered h ht := ht ▸ { h with beside := h.beside.entered _ }
  semicolons _ := .inr ⟨trivial, fun _ _ _ h hk hu =>
    State.Repeats.skipSemicolons h.beside hk (h.current ▸ hk) (hk ▸ h.items) hu⟩
  partedHalts := False.elim
  partedKind := @never_parted
  partedReported _ := id
  partedNamed _ h _ := h.elim
  join h := h.elim

/-- The body of a program with further semicolons. -/
theorem body_repeats {s u : State} {n : Node} (h : body s = .ok n u) {items : List Reading}
    (hi : Repeats s.stream.items items) :
    ∃ v, body { s with stream := ⟨items, s.stream.ending⟩ } = .ok n v ∧ u.Repeats v := by
  have hstart : s.Repeats { s with stream := ⟨items, s.stream.ending⟩ } :=
    ⟨⟨rfl, rfl, rfl, rfl, rfl, .refl _⟩, rfl, hi.after _⟩
  obtain ha | ⟨n', v, hv, hn, huv⟩ := Tandem.repeats.body_of_abreast trivial hstart h
  · exact ha.elim
  · exact ⟨v, hn.eq ▸ hv, huv⟩

/-- **Further semicolons do not matter.** Take a program without errors, and its tokens after the
header and the first `BEGIN`. With any number of semicolons added after any semicolons among them,
parsing gives the same tree, with the same lines, and the same table, and there are no errors. -/
theorem parse?_repeats {front rest rest' : List Reading} {ending : Ending} {table : Table}
    {strict : Bool} {n : Node} {t : State} (hfront : front.length = 4) (hrest : Repeats rest rest')
    (hp : parse? ⟨front ++ rest, ending⟩ table strict = some (n, t)) (ht : t.errorCount = 0) :
    ∃ t', parse? ⟨front ++ rest', ending⟩ table strict = some (n, t') ∧ t'.errorCount = 0 ∧
      t'.reports = t.reports ∧ t'.table = t.table := by
  have hproblems : t.problems = 0 := (Nat.add_eq_zero_iff.1 ht).1
  obtain ⟨r₁, r₂, r₃, r₄, rfl, h₁, h₂, h₃, -⟩ := header_of_parse? hfront hp hproblems
  obtain ⟨m, hm, rfl⟩ := (parse?_eq_some_iff_body h₁ h₂ h₃).1 hp
  obtain ⟨t', ht', htt⟩ := body_repeats hm hrest
  refine ⟨t', (parse?_eq_some_iff_body h₁ h₂ h₃).2 ⟨m, ht', rfl⟩, ?_, ?_, htt.beside.table.symm⟩
  · have hcount : t.errorCount = t'.errorCount := by
      simp only [State.errorCount, ← htt.beside.problems, htt.beside.tokenProblems,
        List.length_nil, Nat.add_zero]
    rw [← hcount, ht]
  · exact htt.beside.reports.eq_of_nothing

/-- Every semicolon is followed by further ones. -/
def spread (extra : List Reading) (xs : List Reading) : List Reading :=
  xs.flatMap fun r => if r.token.kind = .symbol .semicolon then r :: extra else [r]

theorem repeats_spread {extra : List Reading} (h : ∀ q ∈ extra, q.IsSemicolon)
    (xs : List Reading) : Repeats xs (spread extra xs) := by
  induction xs with
  | nil => exact .nil
  | cons r xs ih =>
    rw [spread, List.flatMap_cons]
    split
    · next hr => exact .more hr h ih
    · exact .keep r ih

/-- Semicolons are repeated after statements, after branches, one of them empty, and after an empty
statement. -/
theorem parse?_repeats_selection :
    ∃ stream, stream = Stream.ofSource ("PROGRAM p; BEGIN CASE 1 OF 1: ; 2: REPEAT " ++
        "a := 1; ; b := a; UNTIL a = b; END; IF a = 1 THEN ; c := 2; END.") ∧
      ∃ n t t', parse? stream {} false = some (n, t) ∧ t.errorCount = 0 ∧
      parse? ⟨stream.items.take 4 ++ spread
          [{ token := { kind := .symbol .semicolon, text := ";", line := 7 } },
            { token := { kind := .symbol .semicolon, text := ";", line := 8 } }]
          (stream.items.drop 4), stream.ending⟩ {} false = some (n, t') ∧
      t'.errorCount = 0 := by
  have hrepeats (stream : Stream) {extra : List Reading} (hextra : ∀ q ∈ extra, q.IsSemicolon)
      (hfront : (stream.items.take 4).length = 4)
      (h : (parse? stream {} false).any (·.2.errorCount == 0) = true) :
      ∃ n t t', parse? stream {} false = some (n, t) ∧ t.errorCount = 0 ∧
        parse? ⟨stream.items.take 4 ++ spread extra (stream.items.drop 4), stream.ending⟩ {} false =
          some (n, t') ∧ t'.errorCount = 0 := by
    obtain ⟨⟨n, t⟩, hparse, ht⟩ := (Option.any_eq_true _ _).1 h
    have hcount : t.errorCount = 0 := by simpa using ht
    have hsplit : parse? ⟨stream.items.take 4 ++ stream.items.drop 4, stream.ending⟩ {} false =
        some (n, t) := by
      rw [List.take_append_drop]
      exact hparse
    obtain ⟨t', hparse', ht', -⟩ := parse?_repeats hfront (repeats_spread hextra _) hsplit hcount
    exact ⟨n, t, t', hparse, hcount, hparse', ht'⟩
  refine ⟨_, rfl, hrepeats _ ?_ ?_ ?_⟩
  · simp [Reading.isSemicolon_iff]
  · decide +kernel
  · decide +kernel

end MiniPascal.Parsing
