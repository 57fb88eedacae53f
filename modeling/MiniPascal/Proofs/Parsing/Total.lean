import MiniPascal.Proofs.Parsing.BuildStatement

/-!
# Parsing always ends

**Every stream of tokens is parsed** (`program_total`). Whatever the tokens, the table and the mode,
parsing a program ends with a tree: a program with one child, a compound statement. No problem
escapes from it, since a list of statements and the header recover from every one. The tokens read
are the first ones of the stream, and nothing is read after the end of the text.
-/

namespace MiniPascal.Parsing

variable {α β : Type}

/-! ## Problems that are handled -/

/-- No problem escapes from a parser. -/
def Handles (p : Parser α) : Prop := ∀ s d t, p s ≠ .error (.problem d) t

theorem Handles.of_ok {p : Parser α} (h : ∀ s, ∃ a t, p s = .ok a t) : Handles p := by
  intro s d t he
  obtain ⟨a, u, hu⟩ := h s
  rw [hu] at he
  cases he

theorem Handles.pure (a : α) : Handles (pure a : Parser α) := .of_ok fun s => ⟨a, s, rfl⟩

theorem Handles.bind {p : Parser α} {f : α → Parser β} (hp : Handles p)
    (hf : ∀ a, Handles (f a)) : Handles (p >>= f) := by
  intro s d t
  rw [bind_apply]
  cases he : p s with
  | ok a u => exact hf a u d t
  | error e u =>
    intro h
    cases h
    exact hp s d t he

theorem handles_peek : Handles peek := .of_ok fun s => ⟨s.current.kind, s, rfl⟩

theorem handles_currentLine : Handles currentLine := .of_ok fun s => ⟨_, s, rfl⟩

theorem handles_get : Handles (get : Parser State) := .of_ok fun s => ⟨s, s, rfl⟩

theorem handles_report (d : Diagnostic) : Handles (report d) :=
  .of_ok fun s => ⟨(), s.reported d, rfl⟩

theorem handles_complain (p : Problem) : Handles (complain p) :=
  .of_ok fun s => ⟨(), s.reported (s.current.diagnose p), rfl⟩

theorem handles_advance : Handles advance := by
  intro s d t
  rw [advance_eq]
  cases s.stream.next with
  | error fault => intro h; cases h
  | ok x => intro h; cases h

theorem handles_expect (kind : TokenKind) (p : Problem) : Handles (expect kind p) := by
  refine handles_peek.bind fun k => ?_
  split
  · exact handles_advance.bind fun _ => .pure _
  · exact (handles_complain p).bind fun _ => .pure _

theorem skipAmong_ne_problem (ends : TokenKind → Bool) (ending : Ending) (items : List Reading)
    (s : State) (d : Diagnostic) (t : State) :
    skipAmong ends ending items s ≠ .error (.problem d) t := by
  induction items generalizing s with
  | nil =>
    unfold skipAmong
    split
    · intro h; cases h
    · cases ending with
      | endOfFile line => intro h; cases h
      | unreadable fault => intro h; cases h
  | cons r rest ih =>
    unfold skipAmong
    split
    · intro h; cases h
    · exact ih _

theorem handles_skipTo (followers : TokenKind → Bool) : Handles (skipTo followers) :=
  fun s => skipAmong_ne_problem (stopsAt followers) s.stream.ending s.stream.items s

theorem handles_skipSemicolons : Handles skipSemicolons :=
  fun s => skipAmong_ne_problem _ s.stream.ending s.stream.items s

theorem handles_recover (followers : TokenKind → Bool) (d : Diagnostic) :
    Handles (recover followers d) :=
  (handles_report d).bind fun _ => handles_skipTo followers

/-- Whatever is attempted, a problem in it is recovered from. -/
theorem handles_attempt (followers : TokenKind → Bool) (p : Parser α) :
    Handles (attempt followers p) := by
  intro s d t
  unfold attempt
  split
  · intro h; cases h
  · next d' u he =>
    split
    · intro h; cases h
    · next e v hr =>
      intro h
      cases h
      exact handles_recover followers d' u d t hr
  · next e u hne he =>
    intro h
    cases h
    exact hne d rfl

theorem handles_separate : Handles separate := by
  refine handles_peek.bind fun k => ?_
  split
  · exact handles_skipSemicolons
  · split
    · exact handles_complain _
    · split
      · exact handles_get.bind fun s => handles_recover _ _
      · exact .pure ()

/-- A list of statements recovers from every problem in it. -/
theorem handles_statementsWith (fuel : Nat) : Handles (statementsWith fuel) := by
  induction fuel with
  | zero =>
    intro s d t h
    rw [statementsWith] at h
    cases h
  | succ fuel ih =>
    rw [statementsWith]
    refine handles_peek.bind fun k => ?_
    split
    · exact .pure _
    · exact (handles_attempt _ _).bind fun _ => handles_separate.bind fun _ =>
        ih.bind fun _ => .pure _

theorem handles_statements : Handles statements := fun s => by
  rw [statements_apply]
  exact handles_statementsWith s.fuel s

theorem handles_program : Handles program := by
  refine handles_currentLine.bind fun line => Handles.bind ?_ fun name => Handles.bind ?_ fun c =>
    .pure _
  · refine (handles_attempt _ _).bind fun name => ?_
    split
    · exact .pure _
    · exact (handles_attempt _ _).bind fun _ => .pure _
  · refine handles_currentLine.bind fun line => (handles_expect _ _).bind fun opened =>
      handles_peek.bind fun k => ?_
    split
    · exact .pure _
    · exact handles_statements.bind fun _ => (handles_expect _ _).bind fun _ =>
        (handles_expect _ _).bind fun _ => .pure _

/-! ## Every stream is parsed -/

theorem State.start_endOfFile (items : List Reading) (line : Int) (table : Table) (strict : Bool) :
    ∃ s, State.start ⟨items, .endOfFile line⟩ table strict = .ok s := by
  cases items with
  | nil => exact ⟨_, rfl⟩
  | cons r rest => exact ⟨_, rfl⟩

theorem State.readFrom_start {stream : Stream} {table : Table} {strict : Bool} {s : State}
    (h : State.start stream table strict = .ok s) : s.ReadFrom stream := by
  obtain ⟨items, ending⟩ := stream
  cases items with
  | cons r rest =>
    obtain rfl := Except.ok.inj h
    refine ⟨⟨[], ?_, by simp⟩, rfl, .inl ?_⟩
    · rw [State.reads_receive]; rfl
    · rw [State.reads_receive]; rfl
  | nil =>
    cases ending with
    | endOfFile line =>
      obtain rfl := Except.ok.inj h
      refine ⟨⟨[], ?_, by simp⟩, rfl, .inr ⟨rfl, line, rfl, ?_⟩⟩
      · rw [State.reads_receive]; rfl
      · rw [State.reads_receive]; rfl
    | unreadable fault => cases h

/-- Parsing starts with the first token read, and nothing before it. -/
theorem State.start_eq_ok {stream : Stream} {table : Table} {strict : Bool} {s : State}
    (h : State.start stream table strict = .ok s) :
    ∃ r rest, stream.next = .ok (r, rest) ∧
      s = State.receive { current := r.token, stream, table, strict } r rest := by
  unfold State.start at h
  cases hn : stream.next with
  | error fault =>
    rw [hn] at h
    cases h
  | ok x =>
    rw [hn] at h
    exact ⟨x.1, x.2, rfl, (Except.ok.inj h).symm⟩

theorem table_start {stream : Stream} {table : Table} {strict : Bool} {s : State}
    (h : State.start stream table strict = .ok s) : s.table = table := by
  obtain ⟨r, rest, -, rfl⟩ := State.start_eq_ok h
  rfl

theorem strict_start {stream : Stream} {table : Table} {strict : Bool} {s : State}
    (h : State.start stream table strict = .ok s) : s.strict = strict := by
  obtain ⟨r, rest, -, rfl⟩ := State.start_eq_ok h
  rfl

theorem State.ending_start {stream : Stream} {table : Table} {strict : Bool} {s : State}
    (h : State.start stream table strict = .ok s) : s.stream.ending = stream.ending :=
  (State.readFrom_start h).ending

/-- A stream that ends is parsed to its end or to the end of the program. -/
theorem program_eq_ok {s : State} {line : Int} (h : s.stream.ending = .endOfFile line) :
    ∃ n t, program s = .ok n t := by
  cases he : program s with
  | ok n t => exact ⟨n, t, rfl⟩
  | error e t =>
    obtain ⟨hr, ha⟩ := (meets_program s).of_error he
    cases e with
    | problem d => exact absurd he (handles_program s d t)
    | unreadable fault =>
      have hend : t.stream.ending = .unreadable fault := ha
      rw [hr.ending_eq, h] at hend
      cases hend
    | outOfFuel => exact ha.elim

theorem BuildsProgram.shape {s t : State} {n : Node} (h : BuildsProgram s n t) :
    n.kind = .program ∧ ∃ c : Node, n.children = [c] ∧ c.kind = .compound := by
  obtain ⟨-, hb⟩ := h
  cases hb with
  | nothing => exact ⟨rfl, _, rfl, rfl⟩
  | compound => exact ⟨rfl, _, rfl, rfl⟩

/-- The tree of the program in a stream, and the state in which parsing ends. -/
def parse? {N : Type} [TreeNode N] (stream : Stream) (table : Table) (strict : Bool) :
    Option (N × State) :=
  match State.start stream table strict with
  | .error _ => none
  | .ok s =>
    match program s with
    | .error _ _ => none
    | .ok n t => some (n, t)

theorem parse?_of_program {N : Type} [TreeNode N] {stream : Stream} {table : Table}
    {strict : Bool} {s t : State} {n : N} (hs : State.start stream table strict = .ok s)
    (hp : program s = .ok n t) : parse? stream table strict = some (n, t) := by
  unfold parse?
  rw [hs]
  dsimp only
  rw [hp]

/-- A check of what is parsed holds of a program and the state after it. -/
theorem exists_of_parse?_any {stream : Stream} {table : Table} {strict : Bool}
    {check : Node × State → Bool} (h : (parse? stream table strict).any check = true) :
    ∃ s n t, State.start stream table strict = .ok s ∧ program s = .ok n t ∧
      check (n, t) = true := by
  unfold parse? at h
  split at h
  · cases h
  · next s hs =>
    split at h
    · cases h
    · next n t hp => exact ⟨s, n, t, hs, hp, h⟩

/-- A stream that ends holds a program. -/
theorem isSome_parse? {stream : Stream} {line : Int} (h : stream.ending = .endOfFile line)
    (table : Table) (strict : Bool) : (parse? stream table strict).isSome = true := by
  obtain ⟨items, ending⟩ := stream
  obtain rfl : ending = .endOfFile line := h
  obtain ⟨s, hs⟩ := State.start_endOfFile items line table strict
  obtain ⟨n, t, hn⟩ := program_eq_ok (State.ending_start hs)
  rw [parse?_of_program hs hn]
  rfl

/-- **Parsing is total.** For every list of tokens, of any kinds and with or without diagnostics,
after which the end of the text is given for ever, for every table and in both modes, parsing a
program ends with a program of one compound statement. The tokens read are the first ones of the
stream, and no token is read after the end of the text. -/
theorem program_total (items : List Reading) (line : Int) (table : Table) (strict : Bool) :
    ∃ s n t, State.start ⟨items, .endOfFile line⟩ table strict = .ok s ∧ program s = .ok n t ∧
      n.kind = .program ∧ (∃ c : Node, n.children = [c] ∧ c.kind = .compound) ∧
      t.reads <+: items.map (·.token) ++ [.endOfFile line] ∧
      ∀ x ∈ t.reads.dropLast, x.kind ≠ .endOfFile := by
  obtain ⟨s, hs⟩ := State.start_endOfFile items line table strict
  obtain ⟨n, t, hn⟩ := program_eq_ok (State.ending_start hs)
  obtain ⟨hr, hb⟩ := (meets_program s).of_ok hn
  have hread := hr.readFrom (State.readFrom_start hs)
  obtain ⟨earlier, he, hkinds⟩ := hread.current
  refine ⟨s, n, t, hs, hn, hb.shape.1, hb.shape.2, hread.isPrefix, ?_⟩
  rwa [he, List.dropLast_concat]

end MiniPascal.Parsing
