import MiniPascal.Proofs.Parsing.Accounting
import MiniPascal.Proofs.Parsing.Sharing
import MiniPascal.Proofs.Token.Scanning
import MiniPascal.Proofs.Tree.Equality

/-!
# One token of lookahead

A parser decides by its current token alone, and reads the next one only to move on. So a parse that
has moved over `n` tokens has read `n + 1`, and knows nothing of those that follow.

**Agreement** (`Stream.Agree`). Two streams agree on their first tokens if reading these gives the
same tokens and makes the same diagnostics. Where a diagnostic depends on its token only, as in
program texts and in lists of tokens, it is enough that the tokens are the same.

**Tandem** (`Tandem.lookahead`). Two parses of streams that agree on `n` tokens are abreast while no
more have been read: their states are the same but for what is left of the streams. A parse that has
read more goes on alone.

**Only the tokens read matter** (`parse?_lookahead`). On every stream that agrees with the first one
on the tokens read, parsing gives the same tree, table, diagnostics and current token.
-/

namespace MiniPascal

/-! ## Streams that agree -/

/-- The events of a reading end with its token, so they can be told from those after them. -/
theorem Event.ofReading_append_inj {r r' : Reading} {es es' : List Event}
    (h : ofReading r ++ es = ofReading r' ++ es') : r = r' ∧ es = es' := by
  obtain ⟨token, report⟩ := r
  obtain ⟨token', report'⟩ := r'
  cases report <;> cases report' <;> simp_all [ofReading]

namespace Stream

/-- Reading the first `n` tokens of the two streams gives the same tokens and diagnostics. -/
def Agree (n : Nat) (s t : Stream) : Prop := (t.take n).events = (s.take n).events

variable {s t rest : Stream} {r : Reading} {n : Nat}

theorem take_succ_of_next (h : s.next = .ok (r, rest)) (n : Nat) :
    s.take (n + 1) = (rest.take n).cons r := by
  rw [take, h]

theorem tokens_take_append {front : List Reading} {back : List Reading} {ending : Ending} :
    (take ⟨front ++ back, ending⟩ front.length).tokens = front.map (·.token) := by
  induction front with
  | nil => rfl
  | cons r front ih => exact congrArg (r.token :: ·) ih

/-- Streams that agree give the same token, and agree after it. -/
theorem Agree.next (h : Agree (n + 1) s t) (hn : s.next = .ok (r, rest)) :
    ∃ rest', t.next = .ok (r, rest') ∧ Agree n rest rest' := by
  unfold Agree at h
  rw [take_succ_of_next hn] at h
  cases hn' : t.next with
  | error fault =>
    rw [take, hn'] at h
    obtain ⟨token, report⟩ := r
    cases report <;> cases h
  | ok x =>
    obtain ⟨r', rest'⟩ := x
    rw [take_succ_of_next hn'] at h
    obtain ⟨rfl, hrest⟩ := Event.ofReading_append_inj h
    exact ⟨rest', rfl, hrest⟩

/-- What is reported when a token of the stream is read depends on the token. -/
def ReportsBy (report : Token → Option Diagnostic) (s : Stream) : Prop :=
  (∀ r ∈ s.items, r.report = report r.token) ∧ ∀ line, report (.endOfFile line) = none

theorem ReportsBy.next {report : Token → Option Diagnostic} (h : s.ReportsBy report)
    (hn : s.next = .ok (r, rest)) : r.report = report r.token ∧ rest.ReportsBy report := by
  obtain ⟨hitems, hend⟩ := h
  obtain ⟨hi, -⟩ | ⟨-, rfl, line, -, rfl⟩ := next_eq_ok hn
  · rw [hi] at hitems
    exact ⟨hitems r (List.mem_cons_self ..),
      fun q hq => hitems q (List.mem_cons_of_mem _ hq), hend⟩
  · exact ⟨(hend line).symm, hitems, hend⟩

/-- Where diagnostics depend on tokens only, what happens follows from the tokens. -/
theorem ReportsBy.events_take {report : Token → Option Diagnostic} (h : s.ReportsBy report)
    (n : Nat) : (s.take n).events =
      (s.take n).tokens.flatMap fun t => Event.ofReading { token := t, report := report t } := by
  induction n generalizing s with
  | zero => rfl
  | succ n ih =>
    cases hn : s.next with
    | error fault =>
      rw [take, hn]
      rfl
    | ok x =>
      obtain ⟨r, rest⟩ := x
      obtain ⟨hr, hrest⟩ := h.next hn
      rw [take_succ_of_next hn]
      simp only [Transcript.cons, List.flatMap_cons, ih hrest, ← hr]

theorem ReportsBy.agree {report : Token → Option Diagnostic} (hs : s.ReportsBy report)
    (ht : t.ReportsBy report) (h : (t.take n).tokens = (s.take n).tokens) : Agree n s t := by
  rw [Agree, hs.events_take, ht.events_take, h]

/-- The diagnostic that reading a token of a program text makes. -/
def reportOf (t : Token) : Option Diagnostic :=
  if t.kind = .error then t.text.toList.head?.map fun c => t.diagnose (.ofFirst c) else none

theorem reportsBy_ofSource (source : String) : (ofSource source).ReportsBy reportOf := by
  refine ⟨fun r hr => ?_, fun line => rfl⟩
  obtain ⟨hkind, hreport⟩ | ⟨c, cs, htext, hkind, hreport⟩ := Reading.regular_ofSource source r hr
  · rw [hreport, reportOf, if_neg hkind]
  · rw [hreport, reportOf, if_pos hkind, htext]
    rfl

theorem reportsBy_ofTokens (tokens : List Token) : (ofTokens tokens).ReportsBy fun _ => none := by
  refine ⟨fun r hr => ?_, fun line => rfl⟩
  obtain ⟨t, -, rfl⟩ := List.mem_map.1 hr
  rfl

end Stream

namespace Parsing

/-! ## Two parses of streams that agree -/

/-- The two states are the same but for their streams, which agree on what is left of `n` tokens. -/
structure State.Agrees (n : Nat) (s t : State) : Prop where
  same : t = { s with stream := t.stream }
  ahead : Stream.Agree (n - s.reads.length) s.stream t.stream

namespace State.Agrees

variable {n : Nat} {s t : State}

theorem current (h : s.Agrees n t) : s.current = t.current := by
  rw [h.same]

/-- The first parse reads more than `n` tokens, or both read the same one. -/
theorem next (h : s.Agrees n t) {r : Reading} {rest : Stream}
    (hn : s.stream.next = .ok (r, rest)) :
    n < (s.receive r rest).reads.length ∨
      ∃ rest', t.stream.next = .ok (r, rest') ∧
        (s.receive r rest).Agrees n (t.receive r rest') := by
  rw [State.reads_receive, List.length_append, List.length_singleton]
  by_cases hlt : s.reads.length < n
  · obtain ⟨m, hm⟩ : ∃ m, n - s.reads.length = m + 1 := ⟨n - s.reads.length - 1, by omega⟩
    have hahead := h.ahead
    rw [hm] at hahead
    obtain ⟨rest', hn', hagree⟩ := hahead.next hn
    refine .inr ⟨rest', hn', by rw [h.same]; rfl, ?_⟩
    rw [State.reads_receive, List.length_append, List.length_singleton,
      show n - (s.reads.length + 1) = m by omega]
    exact hagree
  · exact .inl (by omega)

theorem reported (h : s.Agrees n t) (d : Diagnostic) :
    (s.reported d).Agrees n (t.reported d) where
  same := by rw [h.same]; rfl
  ahead := by rw [State.reads_reported]; exact h.ahead

theorem entered (h : s.Agrees n t) (name : String) :
    (s.entered name).Agrees n (t.entered name) where
  same := by rw [h.same]; rfl
  ahead := h.ahead

theorem named (h : s.Agrees n t) (a : Token) (assigned : Bool) :
    (s.named a assigned).Agrees n (t.named a assigned) := by
  have hstrict : t.strict = s.strict := by rw [h.same]
  have htable : t.table = s.table := by rw [h.same]
  unfold State.named
  rw [hstrict, htable]
  split
  · exact (h.reported _).entered _
  · exact h.entered _

end State.Agrees

/-- Parses of streams that agree on the first `n` tokens. -/
def Tandem.lookahead (n : Nat) : Tandem where
  toWording := .same
  abreast := State.Agrees n
  parted _ _ := False
  alone s := n < s.reads.length
  passes _ := True
  blocks := True
  halts := True
  passesPlain _ := trivial
  passesEnd _ := trivial
  passesUntil _ := trivial
  aloneToken t _ := ⟨t, rfl⟩
  aloneHalts _ := trivial
  aloneBlocks _ := trivial
  aloneReceive r rest h := by
    rw [State.reads_receive, List.length_append]
    exact Nat.lt_add_right _ h
  aloneReported d h := by rwa [State.reads_reported]
  aloneNamed t assigned h := by rwa [State.reads_named]
  aloneEntered _ h := h
  current h := h.current
  opens _ _ := trivial
  next h _ _ hn := by
    obtain ha | ⟨rest', hn', hs⟩ := h.next hn
    · exact .inl ha
    · exact .inr ⟨_, rest', hn', .inl hs⟩
  nextFault _ _ := .inl trivial
  reported {s t d e} _ h hd := by
    obtain rfl : d = e := hd
    exact .inr ⟨fun _ _ => id, h.reported d⟩
  named {s t a b} assigned h ht := by
    obtain rfl : a = b := ht
    exact .inr (h.named a assigned)
  entered {s t a b} h ht := by
    obtain rfl : a = b := ht
    exact h.entered a.text
  semicolons _ := .inl trivial
  partedHalts := False.elim
  partedKind := @never_parted
  partedReported _ := False.elim
  partedNamed _ := False.elim
  join := False.elim

/-- From states that agree, a parse that reads no more tokens has the same end on both sides. -/
theorem program_of_agrees {n : Nat} {s s' t : State} {tree : Node} (h : s.Agrees n s')
    (hp : program s = .ok tree t) (ht : t.reads.length ≤ n) :
    ∃ t', program s' = .ok tree t' ∧ t.Agrees n t' := by
  have hprogram : (Tandem.lookahead n).Together (Tandem.lookahead n).Abreast
      (Tandem.lookahead n).Tree (Tandem.lookahead n).Abreast program program :=
    Tandem.together_program trivial (Tandem.together_currentLine fun _ _ h => h)
      (Tandem.together_header trivial (fun _ _ => trivial) fun _ _ => id)
  have hends := hprogram s (some s') h
  rw [hp] at hends
  obtain halone | ⟨tree', t', ht', htree, hagrees⟩ :=
    hends.of_ok (Tandem.program_ne_outOfFuel s')
  · exact absurd ht (Nat.not_le_of_lt halone)
  · obtain rfl : tree = tree' := htree.eq
    exact ⟨t', ht', hagrees⟩

/-! ## Parsing from the start -/

section Start

variable {stream stream' : Stream} {table : Table} {strict : Bool} {tree : Node} {s t : State}

/-- Parses of streams that agree start from states that agree. -/
theorem State.agrees_start {n : Nat} (h : Stream.Agree (n + 1) stream stream')
    (hs : State.start stream table strict = .ok s) :
    ∃ s', State.start stream' table strict = .ok s' ∧ s.Agrees (n + 1) s' := by
  obtain ⟨r, rest, hn, rfl⟩ := State.start_eq_ok hs
  obtain ⟨rest', hn', hagree⟩ := h.next hn
  refine ⟨State.receive { current := r.token, stream := stream', table, strict } r rest', ?_,
    rfl, ?_⟩
  · unfold State.start
    rw [hn']
    rfl
  · rw [State.reads_receive]
    exact hagree

/-- The tokens read are the first ones of the stream. -/
theorem State.ReadFrom.tokens_take (h : s.ReadFrom stream) :
    (stream.take s.reads.length).tokens = s.reads := by
  obtain hrest | ⟨-, line, hend, hreads⟩ := h.rest
  · obtain ⟨front, back, hitems, hfront, -⟩ := List.map_eq_append_iff.1 hrest
    obtain ⟨items, ending⟩ := stream
    obtain rfl : items = front ++ back := hitems
    rw [← hfront, List.length_map]
    exact Stream.tokens_take_append
  · rw [hreads, List.length_append, List.length_map]
    exact (Stream.take_of_endOfFile hend 1).2

/-- On a stream that agrees with the first one on the tokens read, the parse has the same end, but
for what is left of the stream. -/
theorem parse?_of_agree (h : parse? stream table strict = some (tree, t))
    (hagree : Stream.Agree t.reads.length stream stream') :
    ∃ t', parse? stream' table strict = some (tree, t') ∧ t' = { t with stream := t'.stream } := by
  obtain ⟨s, hs, hp⟩ := parse?_eq_some h
  obtain ⟨earlier, hreads, -⟩ :=
    (((meets_program s).of_ok hp).1.readFrom (State.readFrom_start hs)).current
  rw [hreads, List.length_append, List.length_singleton] at hagree
  obtain ⟨s', hs', hagrees⟩ := State.agrees_start hagree hs
  obtain ⟨t', hp', ht'⟩ := program_of_agrees hagrees hp
    (by rw [hreads, List.length_append, List.length_singleton])
  exact ⟨t', parse?_of_program hs' hp', ht'.same⟩

/-- The parse of a stream gives the tree, and the table, the diagnostics and the current token at
its end are those of the state. -/
def GivesSame (stream : Stream) (table : Table) (strict : Bool) (tree : Node) (t : State) : Prop :=
  ∃ t', parse? stream table strict = some (tree, t') ∧ t'.table = t.table ∧
    t'.reports = t.reports ∧ t'.current = t.current

/-- **One token of lookahead.** Let a parse of any stream, with any table and in either mode, move
over `n` tokens. It has read the first `n + 1` tokens of the stream, of which the last one is its
current token. On every stream that agrees with the first one on these, parsing gives the same tree,
table, diagnostics in their order, and current token. Where the diagnostics of reading depend on the
tokens, it is enough that the tokens are the same. -/
theorem parse?_lookahead {n : Nat} (h : parse? stream table strict = some (tree, t))
    (hn : t.reads.length = n + 1) :
    (stream.take (n + 1)).tokens = t.reads ∧ t.reads.getLast? = some t.current ∧
      (∀ stream', Stream.Agree (n + 1) stream stream' →
        GivesSame stream' table strict tree t) ∧
      ∀ report stream', stream.ReportsBy report → stream'.ReportsBy report →
        (stream'.take (n + 1)).tokens = (stream.take (n + 1)).tokens →
        GivesSame stream' table strict tree t := by
  have hgives (stream' : Stream) (hagree : Stream.Agree (n + 1) stream stream') :
      GivesSame stream' table strict tree t := by
    obtain ⟨t', hp', ht'⟩ := parse?_of_agree h (hn ▸ hagree)
    refine ⟨t', hp', ?_⟩
    rw [ht']
    exact ⟨rfl, rfl, rfl⟩
  obtain ⟨s, hs, hp⟩ := parse?_eq_some h
  have hread := ((meets_program s).of_ok hp).1.readFrom (State.readFrom_start hs)
  obtain ⟨earlier, hearlier, -⟩ := hread.current
  refine ⟨hn ▸ hread.tokens_take, by rw [hearlier, List.getLast?_concat], hgives, ?_⟩
  intro report stream' hr hr' htokens
  exact hgives stream' (hr.agree hr' htokens)

end Start

/-- The tokens of a program without a header. -/
def bareProgram : List Token :=
  [{ kind := .keyword .BEGIN, text := "BEGIN", line := 1 },
    { kind := .keyword .END, text := "END", line := 1 },
    { kind := .symbol .period, text := ".", line := 1 }]

/-- After the token behind the final period there is nothing, or a comment and a quoted text that is
not closed. In a list of tokens, the end of the text may stand for itself, and be followed by other
tokens. -/
theorem parse?_lookahead_trailing :
    (∃ tree t, parse? (.ofSource "PROGRAM p; BEGIN x := ; WRITE(y) END. q") {} true =
        some (tree, t) ∧ t.reads.length = 13 + 1 ∧ t.reports.length = 2 ∧ t.current.text = "q" ∧
      GivesSame (.ofSource "PROGRAM p; BEGIN x := ; WRITE(y) END. q \x7bend\x7d; 'a") {} true
        tree t) ∧
    ∃ tree t, parse? (.ofTokens bareProgram) {} false = some (tree, t) ∧
      t.reads.length = 3 + 1 ∧ t.reports.length = 1 ∧ t.current.text = "" ∧
      GivesSame (.ofTokens (bareProgram ++ .endOfFile 1 :: bareProgram)) {} false tree t := by
  have hsame {stream stream' : Stream} {strict : Bool} {n m : Nat} {text : String}
      {report : Token → Option Diagnostic}
      (hcheck : (parse? stream {} strict).any (fun p => p.2.reads.length == n + 1 &&
        p.2.reports.length == m && p.2.current.text == text) = true)
      (hr : stream.ReportsBy report) (hr' : stream'.ReportsBy report)
      (htokens : (stream'.take (n + 1)).tokens = (stream.take (n + 1)).tokens) :
      ∃ tree t, parse? stream {} strict = some (tree, t) ∧ t.reads.length = n + 1 ∧
        t.reports.length = m ∧ t.current.text = text ∧ GivesSame stream' {} strict tree t := by
    obtain ⟨⟨tree, t⟩, hparse, ht⟩ := (Option.any_eq_true _ _).1 hcheck
    simp only [Bool.and_eq_true, beq_iff_eq] at ht
    obtain ⟨⟨hreads, hreports⟩, hcurrent⟩ := ht
    refine ⟨tree, t, hparse, hreads, hreports, hcurrent, ?_⟩
    exact (parse?_lookahead hparse hreads).2.2.2 report stream' hr hr' htokens
  refine ⟨hsame ?_ (Stream.reportsBy_ofSource _) (Stream.reportsBy_ofSource _) ?_,
    hsame ?_ (Stream.reportsBy_ofTokens _) (Stream.reportsBy_ofTokens _) ?_⟩
  all_goals decide +kernel

end Parsing

end MiniPascal
