import MiniPascal.Proofs.Grammar.Sentence
import MiniPascal.Proofs.Parsing.Beside
import MiniPascal.Proofs.Parsing.TandemParse
import MiniPascal.Proofs.Tree.Equality

/-!
# Missing semicolons

Between two statements of a list the semicolons may be forgotten. The parser then finds a token that
starts a statement where the first of them ends, reports that a semicolon is missing in front of it,
and goes on as if it were there.

So a parse of a stream goes in tandem with one of the same stream without some of its separators
(`Tandem.omits`). The parses part in front of a separator that only the first of them has. They come
together behind it, in a list of statements. A separator in front of a statement is nowhere else in
a program without errors, since a branch of a selection does not start like a statement.

**A forgotten separator is one error and nothing else** (`parse?_omits`). In a program without
errors, leave out separators between statements, of which the earlier does not end in `THEN`, `ELSE`
or `DO`. The tree and the table stay the same. What is reported is a missing semicolon for each of
the separators, at the first token of the statement after it.
-/

namespace MiniPascal

open Parsing Grammar

/-! ## How statements end -/

namespace Grammar

/-- Kinds of tokens after which a branch or a body may be empty, and a statement end. -/
def awaitsStatement : TokenKind → Bool
  | .keyword .THEN | .keyword .ELSE | .keyword .DO => true
  | _ => false

/-- A phrase that ends with a token. -/
theorem endsStatement_of_concat {u : List Token} {a x : Token} {k : TokenKind} (hk : a.kind = k)
    (hends : endsStatement k = true) (h : (u ++ [a]).getLast? = some x) :
    endsStatement x.kind = true := by
  rw [List.getLast?_concat] at h
  obtain rfl := Option.some.inj h
  rw [hk, hends]

theorem Expression.endsStatement {level : Level} {w : List Token} {n : Node}
    (h : Expression level w n) {x : Token} (hx : w.getLast? = some x) :
    endsStatement x.kind = true := by
  induction h with
  | simple _ ih | term _ ih | factor _ ih => exact ih hx
  | relation _ _ hv _ ih | sum _ _ hv _ ih | product _ _ hv _ ih =>
    refine ih ?_
    rwa [List.getLast?_append_cons, List.getLast?_cons_of_ne_nil hv.ne_nil] at hx
  | negate _ hv ih | not _ hv ih =>
    refine ih ?_
    rwa [List.getLast?_cons_of_ne_nil hv.ne_nil] at hx
  | name hk | integer hk | real hk => exact endsStatement_of_concat (u := []) hk rfl hx
  | paren _ _ hk => exact endsStatement_of_concat hk rfl hx

/-- A phrase that ends with an expression. -/
theorem Expression.endsStatement_append {level : Level} {u v : List Token} {n : Node}
    (hv : Expression level v n) {a x : Token} (h : (u ++ a :: v).getLast? = some x) :
    Parsing.endsStatement x.kind = true := by
  rw [List.getLast?_append_cons, List.getLast?_cons_of_ne_nil hv.ne_nil] at h
  exact hv.endsStatement h

/-- A phrase that ends with a branch or a body, which may be empty. -/
theorem endsStatement_of_branch {u v : List Token} {a x : Token} {k : TokenKind} (hk : a.kind = k)
    (hawaits : awaitsStatement k = true)
    (hv : v.getLast? = some x → endsStatement x.kind = true ∨ awaitsStatement x.kind = true)
    (h : (u ++ a :: v).getLast? = some x) :
    endsStatement x.kind = true ∨ awaitsStatement x.kind = true := by
  rw [List.getLast?_append_cons, List.getLast?_cons] at h
  cases hlast : v.getLast? with
  | none =>
    rw [hlast] at h
    obtain rfl := Option.some.inj h
    exact .inr (by rw [Option.getD_none, hk, hawaits])
  | some y =>
    rw [hlast] at h
    exact hv (hlast.trans h)

/-- A statement ends with a token of certain kinds, or with an empty branch or body. -/
theorem Statement.endsStatement {phrase : Phrase} {w : List Token} {line : Int} {ns : List Node}
    (h : Statement phrase w line ns) (hp : phrase = .statement ∨ phrase = .branch) {x : Token}
    (hx : w.getLast? = some x) :
    Parsing.endsStatement x.kind = true ∨ awaitsStatement x.kind = true := by
  induction h with
  | empty | emptyBranch => cases hx
  | branch _ ih => exact ih (.inl rfl) hx
  | @assign y _ _ _ _ _ _ hv => exact .inl (hv.endsStatement_append (u := [y]) hx)
  | compound _ _ he => exact .inl (endsStatement_of_concat he rfl hx)
  | repeatUntil _ _ _ hv => exact .inl (hv.endsStatement_append hx)
  | whileDo _ _ hd _ ih => exact endsStatement_of_branch hd rfl (ih (.inr rfl)) hx
  | forDo _ _ _ _ _ _ hd _ ih => exact endsStatement_of_branch hd rfl (ih (.inr rfl)) hx
  | ifThen _ _ ht _ ih => exact endsStatement_of_branch ht rfl (ih (.inr rfl)) hx
  | ifThenElse _ _ _ _ he _ _ ih => exact endsStatement_of_branch he rfl (ih (.inr rfl)) hx
  | caseOf _ _ _ _ he => exact .inl (endsStatement_of_concat he rfl hx)
  | write _ _ _ hr | writeln _ _ _ hr => exact .inl (endsStatement_of_concat hr rfl hx)
  | @writelnNothing y l _ _ _ _ hr => exact .inl (endsStatement_of_concat (u := [y, l]) hr rfl hx)
  | writelnBare hy => exact .inl (endsStatement_of_concat (u := []) hy rfl hx)
  | listLast | listMore | caseBranch | casesNone | casesLast | casesMore => simp at hp

end Grammar

namespace Parsing

/-! ## Streams without some separators -/

/-- The tokens end with a statement that does not end in an empty branch or body. -/
def EndsStatement (before : List Token) : Prop :=
  ∃ (w : List Token) (line : Int) (ns : List Node) (x : Token), w <:+ before ∧
    Statement .statement w line ns ∧ w.getLast? = some x ∧ awaitsStatement x.kind = false

theorem EndsStatement.last {before : List Token} (h : EndsStatement before) :
    ∃ x, before.getLast? = some x ∧ endsStatement x.kind = true := by
  obtain ⟨w, line, ns, x, ⟨front, rfl⟩, hw, hx, hawaits⟩ := h
  refine ⟨x, ?_, (hw.endsStatement (.inl rfl) hx).resolve_right (by simp [hawaits])⟩
  rw [List.getLast?_append, hx]
  rfl

/-- The second list is the first one without some of the separators between statements, where
`before` are the tokens in front of both. The first tokens of the statements after the separators
left out are `missing`. -/
inductive Omits : List Token → List Reading → List Reading → List Token → Prop
  | nil {before : List Token} : Omits before [] [] []
  | keep {before missing : List Token} {r : Reading} {xs ys : List Reading} :
      Omits (before ++ [r.token]) xs ys missing → Omits before (r :: xs) (r :: ys) missing
  | drop {before missing : List Token} {q r : Reading} {run xs ys : List Reading} :
      EndsStatement before → (∀ p ∈ q :: run, p.IsSemicolon) →
      startsStatement r.token.kind = true →
      Omits (before ++ (q :: run).map (·.token) ++ [r.token]) xs ys missing →
      Omits before (q :: run ++ r :: xs) (r :: ys) (r.token :: missing)

/-- What the two parses have still to read at a token: lists where separators are left out, or what
comes after these. -/
inductive Remains (after : List Reading) (x : Token) :
    List Reading → List Reading → List Token → Prop
  | inside {before missing : List Token} {xs ys : List Reading} :
      (∀ y, before.getLast? = some y → y = x) → Omits before xs ys missing →
      Remains after x (xs ++ after) (ys ++ after) missing
  | behind {items : List Reading} : Remains after x items items []

section States

variable (after : List Reading) (missing : List Token)

/-- The parses are at the same token. The second one has reported what it has missed so far. -/
structure State.Omitting (s t : State) : Prop where
  current : s.current = t.current
  remains : ∃ made rest, missing = made ++ rest ∧
    s.Beside (made.map (·.diagnose .missingSemicolon)) t ∧
    Remains after s.current s.stream.items t.stream.items rest

/-- The first parse is at a separator, and the second one has read the token after it. -/
inductive State.Parted : State → State → Prop
  | mk {s t : State} {r : Reading} {before made rest : List Token} {run xs ys : List Reading} :
      missing = made ++ r.token :: rest → s.Beside (made.map (·.diagnose .missingSemicolon)) t →
      s.current.kind = .symbol .semicolon → (∀ q ∈ run, q.IsSemicolon) →
      s.stream.items = run ++ r :: (xs ++ after) → startsStatement r.token.kind = true →
      Omits (before ++ [r.token]) xs ys rest →
      Parted s (t.receive r ⟨ys ++ after, t.stream.ending⟩)

end States

variable {after : List Reading} {missing : List Token} {s t : State}

/-- The same token is read in both parses. -/
theorem State.Omitting.receive {made rest : List Token} (hm : missing = made ++ rest)
    (h : s.Beside (made.map (·.diagnose .missingSemicolon)) t) (r : Reading)
    {stream stream' : Stream} (he : stream.ending = stream'.ending)
    (hr : Remains after r.token stream.items stream'.items rest) :
    (s.receive r stream).Omitting after missing (t.receive r stream') :=
  ⟨rfl, made, rest, hm, h.receive r he, hr⟩

theorem State.Omitting.next (h : s.Omitting after missing t) {r : Reading} {stream : Stream}
    (hn : s.stream.next = .ok (r, stream)) :
    ∃ r' stream', t.stream.next = .ok (r', stream') ∧
      ((s.receive r stream).Omitting after missing (t.receive r' stream') ∨
        endsStatement s.current.kind = true ∧
          (s.receive r stream).Parted after missing (t.receive r' stream')) := by
  obtain ⟨made, rest, hm, hb, hr⟩ := h.remains
  -- Where the streams are the same, nothing is left out any more.
  have hsame (hi : s.stream.items = t.stream.items) (hrest : rest = []) :
      ∃ r' stream', t.stream.next = .ok (r', stream') ∧
        (s.receive r stream).Omitting after missing (t.receive r' stream') := by
    have hstream : s.stream = t.stream := by
      cases hs : s.stream
      cases ht : t.stream
      have he := hb.ending
      simp_all
    rw [← hstream]
    subst hrest
    exact ⟨r, stream, hn, .receive hm hb r rfl .behind⟩
  generalize hs : s.stream.items = items, ht : t.stream.items = items' at hr
  cases hr with
  | behind =>
    obtain ⟨r', stream', hn', h⟩ := hsame (hs.trans ht.symm) rfl
    exact ⟨r', stream', hn', .inl h⟩
  | inside hx ho =>
    cases ho with
    | nil =>
      obtain ⟨r', stream', hn', h⟩ := hsame (hs.trans ht.symm) rfl
      exact ⟨r', stream', hn', .inl h⟩
    | keep ho =>
      obtain ⟨rfl, rfl⟩ := Stream.eq_of_next hn hs
      refine ⟨_, _, Stream.next_of_cons ht, .inl (.receive hm hb _ hb.ending (.inside ?_ ho))⟩
      simp
    -- Here the semicolons are left out, so the second parse is at the statement after them.
    | drop hends hrun hstarts ho =>
      obtain ⟨rfl, rfl⟩ := Stream.eq_of_next hn hs
      obtain ⟨y, hy, hyk⟩ := hends.last
      obtain ⟨hq, hrun⟩ := List.forall_mem_cons.1 hrun
      refine ⟨_, _, Stream.next_of_cons ht, .inr ⟨hx y hy ▸ hyk, ?_⟩⟩
      exact .mk hm (hb.receive_left hq.report rfl) hq.kind hrun (List.append_assoc _ _ _) hstarts ho

/-- The parses come together at the token after a separator. -/
theorem State.Parted.join (h : s.Parted after missing t) {u : State}
    (hu : skipSemicolons s = .ok () u) :
    startsStatement u.current.kind = true ∧
      u.Omitting after missing (t.reported (t.current.diagnose .missingSemicolon)) := by
  obtain ⟨hm, hb, hk, hrun, hi, hstarts, ho⟩ := h
  rename_i t r before made rest run xs ys
  induction run generalizing s with
  | nil =>
    rw [Tandem.skipSemicolons_of_next hk (Stream.next_of_cons hi)] at hu
    have hne : r.token.kind ≠ .symbol .semicolon := by
      intro hr
      rw [hr] at hstarts
      cases hstarts
    rw [Tandem.skipSemicolons_of_ne hne] at hu
    obtain rfl := (EStateM.Result.ok.inj hu).2
    refine ⟨hstarts, rfl, made ++ [r.token], rest, by simp [hm], ?_, .inside ?_ ho⟩
    · have hreceived : (s.receive r ⟨xs ++ after, s.stream.ending⟩).Beside _
          (t.receive r ⟨ys ++ after, t.stream.ending⟩) := hb.receive r hb.ending
      rw [List.map_append]
      exact hreceived.reported_right _
    · simp [State.receive]
  | cons q run ih =>
    obtain ⟨hq, hrun⟩ := List.forall_mem_cons.1 hrun
    rw [Tandem.skipSemicolons_of_next hk (Stream.next_of_cons hi)] at hu
    exact ih hu (hb.receive_left hq.report rfl) hq.kind hrun rfl

theorem State.Omitting.named (h : s.Omitting after missing t) (a : Token) (assigned : Bool) :
    (s.named a assigned).Omitting after missing (t.named a assigned) := by
  obtain ⟨made, rest, hm, hb, hr⟩ := h.remains
  exact ⟨by simpa using h.current, made, rest, hm, hb.named a assigned, by simpa using hr⟩

theorem State.problems_le_named (s : State) (a : Token) (assigned : Bool) :
    s.problems ≤ (s.named a assigned).problems := by
  unfold State.named
  split
  · exact Nat.le_succ _
  · exact le_rfl

/-- A name that is not reported is entered in both parses. -/
theorem State.Parted.named (h : s.Parted after missing t) (a : Token) (assigned : Bool) :
    0 < (s.named a assigned).problems ∨
      (s.named a assigned).Parted after missing (t.named a assigned) := by
  obtain ⟨hm, hb, hk, hrun, hi, hstarts, ho⟩ := h
  rename_i t r before made rest run xs ys
  by_cases hc : (s.strict && !assigned && !s.table.contains a.text) = true
  · left
    unfold State.named
    rw [if_pos hc]
    exact Nat.succ_pos _
  · right
    have hc' : ¬(t.strict && !assigned && !t.table.contains a.text) = true := by
      rwa [← hb.strict, ← hb.table]
    have hs : s.named a assigned = s.entered a.text := by rw [State.named, if_neg hc]
    have ht : (t.receive r ⟨ys ++ after, t.stream.ending⟩).named a assigned =
        (t.entered a.text).receive r ⟨ys ++ after, t.stream.ending⟩ := by
      unfold State.named
      exact congrArg (State.entered · a.text) (if_neg hc')
    rw [hs, ht]
    exact .mk hm (hb.entered a.text) hk hrun hi hstarts ho

/-- Parses of streams of which the second has some separators left out. The first one has no
problems. -/
def Tandem.omits (after : List Reading) (missing : List Token) : Tandem where
  toWording := .same
  abreast := State.Omitting after missing
  parted := State.Parted after missing
  alone s := 0 < s.problems
  passes _ := True
  blocks := True
  halts := True
  passesPlain _ := trivial
  passesEnd _ := trivial
  passesUntil _ := trivial
  aloneToken t _ := ⟨t, rfl⟩
  aloneHalts _ := trivial
  aloneBlocks _ := trivial
  aloneReceive _ _ h := h
  aloneReported _ _ := Nat.succ_pos _
  aloneNamed t assigned h := h.trans_le (State.problems_le_named _ t assigned)
  aloneEntered _ h := h
  current h := h.current
  opens _ _ := trivial
  next h _ _ hn := .inr (h.next hn)
  nextFault _ _ := .inl trivial
  reported _ _ _ := .inl (Nat.succ_pos _)
  named assigned h ht := .inr (ht ▸ h.named _ assigned)
  entered h ht := by
    obtain ⟨made, rest, hm, hb, hr⟩ := h.remains
    exact ht ▸ ⟨h.current, made, rest, hm, hb.entered _, hr⟩
  semicolons _ := .inl trivial
  partedHalts _ := trivial
  partedKind h := by
    obtain ⟨-, -, hk, -, -, hstarts, -⟩ := h
    exact ⟨hk, hstarts⟩
  partedReported _ _ := Nat.succ_pos _
  partedNamed assigned h ht := ht ▸ h.named _ assigned
  join h hu := ⟨(h.join hu).1, fun _ => Nat.succ_pos _, (h.join hu).2⟩

/-! ## Programs -/

/-- At the end of what separators are left out of, all of them have been missed. -/
theorem Remains.eq_nil {x : Token} {items items' : List Reading} {rest : List Token}
    (h : Remains after x items items' rest) (hlength : items.length ≤ after.length) :
    rest = [] := by
  cases h with
  | behind => rfl
  | inside _ ho =>
    cases ho with
    | nil => rfl
    | keep | drop =>
      simp only [List.length_append, List.length_cons] at hlength
      omega

/-- The body of a program without some of its separators. -/
theorem body_omits {xs ys : List Reading} (ho : Omits [] xs ys missing) {s u : State} {n : Node}
    (h : body s = .ok n u) (hu : u.problems = 0) (hi : s.stream.items = xs ++ after)
    (hlength : u.stream.items.length ≤ after.length) :
    ∃ v, body { s with stream := ⟨ys ++ after, s.stream.ending⟩ } = .ok n v ∧
      u.Beside (missing.map (·.diagnose .missingSemicolon)) v := by
  have hstart : s.Omitting after missing { s with stream := ⟨ys ++ after, s.stream.ending⟩ } :=
    ⟨rfl, [], missing, rfl, ⟨rfl, rfl, rfl, rfl, rfl, .refl _⟩, hi ▸ .inside (by simp) ho⟩
  obtain ha | ⟨n', v, hv, hn, huv⟩ := (Tandem.omits after missing).body_of_abreast trivial hstart h
  · have hpos : 0 < u.problems := ha
    omega
  · obtain ⟨made, rest, hm, hb, hr⟩ := huv.remains
    obtain rfl := hr.eq_nil hlength
    rw [List.append_nil] at hm
    exact ⟨v, hn.eq ▸ hv, hm ▸ hb⟩

/-- What is left when the first tokens of a stream have been moved over. -/
theorem length_items_le {moved after : List Reading} {ending : Ending} {t : State}
    (h : t.ReadFrom ⟨moved ++ after, ending⟩)
    (hread : t.reads.dropLast = moved.map (·.token)) : t.stream.items.length ≤ after.length := by
  obtain ⟨earlier, he, -⟩ := h.current
  have hlength : t.reads.length = moved.length + 1 := by
    rw [he, List.dropLast_concat] at hread
    rw [he, hread]
    simp
  obtain hrest | ⟨hrest, -⟩ := h.rest
  · have hsum := congrArg List.length hrest
    simp only [List.length_map, List.length_append] at hsum
    omega
  · simp [hrest]

/-- **A forgotten separator is one error and nothing else.** Take a program without errors, and the
tokens after its first `BEGIN` that parsing moves over. Without some of the separators between
statements among them, parsing gives the same tree and the same table. It reports a missing
semicolon for each of the separators left out, at the first token of the statement after it, and
nothing else. -/
theorem parse?_omits {front inner inner' after : List Reading} {missing : List Token}
    {ending : Ending} {table : Table} {strict : Bool} {n : Node} {t : State}
    (hfront : front.length = 4) (homits : Omits [] inner inner' missing)
    (hp : parse? ⟨front ++ inner ++ after, ending⟩ table strict = some (n, t))
    (ht : t.errorCount = 0) (hread : t.reads.dropLast = (front ++ inner).map (·.token)) :
    ∃ t', parse? ⟨front ++ inner' ++ after, ending⟩ table strict = some (n, t') ∧
      t'.table = t.table ∧ t'.reports = missing.map (·.diagnose .missingSemicolon) ∧
      t'.errorCount = missing.length := by
  have hproblems : t.problems = 0 := (Nat.add_eq_zero_iff.1 ht).1
  obtain ⟨s, hs, hn⟩ := parse?_eq_some hp
  have hreach : Reaches s t := ((meets_program s).of_ok hn).1
  have hreports : t.reports = [] := by
    rw [← List.length_eq_zero_iff, ← hreach.counted (State.counted_start hs), ht]
  have hlength : t.stream.items.length ≤ after.length :=
    length_items_le (hreach.readFrom (State.readFrom_start hs)) hread
  rw [List.append_assoc] at hp ⊢
  obtain ⟨r₁, r₂, r₃, r₄, rfl, h₁, h₂, h₃, -⟩ := header_of_parse? hfront hp hproblems
  obtain ⟨m, hm, rfl⟩ := (parse?_eq_some_iff_body h₁ h₂ h₃).1 hp
  obtain ⟨t', ht', htt⟩ := body_omits homits hm hproblems rfl hlength
  refine ⟨t', (parse?_eq_some_iff_body h₁ h₂ h₃).2 ⟨m, ht', rfl⟩, htt.table.symm, ?_, ?_⟩
  · exact (hreports ▸ htt.reports).eq_of_empty
  · have hcount : t'.errorCount = t.errorCount + missing.length := by
      simp only [State.errorCount, ← htt.problems, ← htt.tokenProblems, List.length_map]
      omega
    rw [hcount, ht, Nat.zero_add]

/-- A token of a kind, read without a report. -/
def reading (kind : TokenKind) (line : Int) : Reading := { token := { kind, text := "x", line } }

/-- Two separators are left out, one of them inside the statement in front of the other. -/
theorem parse?_omits_nested :
    ∃ front inner inner' : List Reading, ∃ missing : List Token,
      Omits [] inner inner' missing ∧ missing.map (·.line) = [6, 8] ∧
      ∃ n t t', parse? ⟨front ++ inner ++ [], .endOfFile 9⟩ {} false = some (n, t) ∧
        t.errorCount = 0 ∧ parse? ⟨front ++ inner' ++ [], .endOfFile 9⟩ {} false = some (n, t') ∧
        t'.errorCount = 2 := by
  have hwrite (k line : Int) :
      Statement .statement [(reading (.keyword .WRITELN) k).token] line _ := .writelnBare rfl
  have hlist : Statement .list ([(reading (.keyword .WRITELN) 4).token] ++
      (reading (.symbol .semicolon) 4).token :: [(reading (.symbol .semicolon) 5).token] ++
      [(reading (.keyword .WRITELN) 6).token]) (reading (.keyword .END) 7).token.line _ :=
    .listMore (hwrite 4 4) (by simp [Semicolons, reading]) (.listLast (hwrite 6 7))
  have hblock : Statement .statement ((reading (.keyword .BEGIN) 3).token :: _ ++
      [(reading (.keyword .END) 7).token]) 7 _ := .compound rfl hlist rfl
  have homits : Omits []
      [reading (.keyword .BEGIN) 3, reading (.keyword .WRITELN) 4, reading (.symbol .semicolon) 4,
        reading (.symbol .semicolon) 5, reading (.keyword .WRITELN) 6, reading (.keyword .END) 7,
        reading (.symbol .semicolon) 7, reading (.keyword .WRITELN) 8, reading (.keyword .END) 9,
        reading (.symbol .period) 9]
      [reading (.keyword .BEGIN) 3, reading (.keyword .WRITELN) 4, reading (.keyword .WRITELN) 6,
        reading (.keyword .END) 7, reading (.keyword .WRITELN) 8, reading (.keyword .END) 9,
        reading (.symbol .period) 9]
      [(reading (.keyword .WRITELN) 6).token, (reading (.keyword .WRITELN) 8).token] := by
    have hfirst : EndsStatement [(reading (.keyword .BEGIN) 3).token,
        (reading (.keyword .WRITELN) 4).token] :=
      ⟨_, 4, _, _, ⟨[_], rfl⟩, hwrite 4 4, rfl, rfl⟩
    have hsecond : EndsStatement _ := ⟨_, 7, _, _, ⟨[], rfl⟩, hblock, rfl, rfl⟩
    refine .keep (.keep (@Omits.drop _ _ _ _ [_] _ _ hfirst ?_ rfl
      (.keep (@Omits.drop _ _ _ _ [] _ _ hsecond ?_ rfl (.keep (.keep .nil))))))
    · simp [Reading.isSemicolon_iff, reading]
    · simp [Reading.isSemicolon_iff, reading]
  have hparse {front inner inner' : List Reading} {missing : List Token}
      (homits : Omits [] inner inner' missing) (hfront : front.length = 4)
      (h : (parse? ⟨front ++ inner ++ [], .endOfFile 9⟩ {} false).any (fun p =>
        p.2.errorCount = 0 ∧ p.2.reads.dropLast = (front ++ inner).map (·.token)) = true) :
      ∃ n t t', parse? ⟨front ++ inner ++ [], .endOfFile 9⟩ {} false = some (n, t) ∧
        t.errorCount = 0 ∧ parse? ⟨front ++ inner' ++ [], .endOfFile 9⟩ {} false = some (n, t') ∧
        t'.errorCount = missing.length := by
    obtain ⟨⟨n, t⟩, hparse, ht⟩ := (Option.any_eq_true _ _).1 h
    obtain ⟨hcount, hread⟩ := of_decide_eq_true ht
    obtain ⟨t', hparse', -, -, ht'⟩ := parse?_omits hfront homits hparse hcount hread
    exact ⟨n, t, t', hparse, hcount, hparse', ht'⟩
  refine ⟨[reading (.keyword .PROGRAM) 1, reading .identifier 1, reading (.symbol .semicolon) 1,
    reading (.keyword .BEGIN) 2], _, _, _, homits, rfl, hparse homits rfl ?_⟩
  decide +kernel

end Parsing

end MiniPascal
