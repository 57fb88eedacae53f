import MiniPascal.Proofs.Parsing.Wording

/-!
# Two parses in tandem

Two parses of streams that differ in places can keep in step. A `Tandem` says how the streams may
differ, by the states in which the two parses can be:

* they are *abreast*: at tokens that correspond, with streams that differ further on;
* they are *parted*: the first is at semicolons that the second has not got, and the second is at
  the statement after them;
* the first parse goes on *alone*: something happened to it after which the second does not matter.

The steps of parsing keep to these: moving over a token, reporting a problem, and entering a name.

`c.Together P Q R p q` says of two parsers that from states related by `P` they end in states
related by `R` with results related by `Q`, or both with problems that correspond. The rules of this
judgement follow the ways in which parsers are put together: sequences (`Together.bind`), moving
over tokens, reporting (`together_report`), skipping (`ends_skip`) and attempts
(`together_attempt`).
-/

namespace MiniPascal.Parsing

variable {α β γ δ : Type}

/-! ## States that correspond -/

/-- In which ways two parses may differ. -/
structure Tandem extends Wording where
  abreast : State → State → Prop
  parted : State → State → Prop
  alone : State → Prop
  /-- Kinds of tokens that the two parses move over one by one. -/
  passes : TokenKind → Prop
  /-- Whether there are lists to parse. -/
  blocks : Prop
  /-- Whether nothing is said of parses where the first cannot read a token. -/
  halts : Prop
  passesPlain {k : TokenKind} : followsStatement k = false → passes k
  passesEnd : blocks → passes (.keyword .END)
  passesUntil : blocks → passes (.keyword .UNTIL)
  aloneToken {s : State} (t : Token) : alone s → ∃ u, token t u
  aloneHalts {s : State} : alone s → halts
  aloneBlocks {s : State} : alone s → blocks
  aloneReceive {s : State} (r : Reading) (rest : Stream) : alone s → alone (s.receive r rest)
  aloneReported {s : State} (d : Diagnostic) : alone s → alone (s.reported d)
  aloneNamed {s : State} (t : Token) (assigned : Bool) : alone s → alone (s.named t assigned)
  aloneEntered {s : State} (name : String) : alone s → alone (s.entered name)
  current {s t : State} : abreast s t → token s.current t.current
  opens {s t : State} : abreast s t → opensBlock s.current.kind = true → blocks
  next {s t : State} {r : Reading} {rest : Stream} : abreast s t → passes s.current.kind →
    s.current.kind ≠ .endOfFile → s.stream.next = .ok (r, rest) →
    alone (s.receive r rest) ∨ ∃ r' rest', t.stream.next = .ok (r', rest') ∧
      (abreast (s.receive r rest) (t.receive r' rest') ∨
        endsStatement s.current.kind = true ∧ parted (s.receive r rest) (t.receive r' rest'))
  nextFault {s t : State} {fault : Decimal.NumeralFault} : abreast s t →
    s.stream.next = .error fault → halts ∨ ∃ fault', t.stream.next = .error fault'
  /-- Parses that can be parted are not abreast after a problem. -/
  reported {s t : State} {d e : Diagnostic} : blocks → abreast s t → diagnostic d e →
    alone (s.reported d) ∨ (∀ u v, ¬parted u v) ∧ abreast (s.reported d) (t.reported e)
  named {s t : State} {a b : Token} (assigned : Bool) : abreast s t → token a b →
    alone (s.named a assigned) ∨ abreast (s.named a assigned) (t.named b assigned)
  entered {s t : State} {a b : Token} : abreast s t → token a b →
    abreast (s.entered a.text) (t.entered b.text)
  /-- Where semicolons are not moved over one by one, a run of them is as a whole. -/
  semicolons : blocks → passes (.symbol .semicolon) ∨ halts ∧ ∀ s t u, abreast s t →
    s.current.kind = .symbol .semicolon → skipSemicolons s = .ok () u →
    ∃ v, skipSemicolons t = .ok () v ∧ abreast u v
  partedHalts {s t : State} : parted s t → halts
  partedKind {s t : State} : parted s t →
    s.current.kind = .symbol .semicolon ∧ startsStatement t.current.kind = true
  partedReported {s t : State} (d : Diagnostic) : parted s t → alone (s.reported d)
  partedNamed {s t : State} {a b : Token} (assigned : Bool) : parted s t → token a b →
    alone (s.named a assigned) ∨ parted (s.named a assigned) (t.named b assigned)
  /-- In a list of statements the second parse reports the missing semicolon. -/
  join {s t u : State} : parted s t → skipSemicolons s = .ok () u →
    startsStatement u.current.kind = true ∧ (∀ d, alone (u.reported d)) ∧
      abreast u (t.reported (t.current.diagnose .missingSemicolon))

namespace Tandem

/-- What is asked of parses that are parted, where they never are. -/
theorem never_parted {s t : State} (h : False) :
    s.current.kind = .symbol .semicolon ∧ startsStatement t.current.kind = true := h.elim

/-- The first parse is abreast of the second, or alone. -/
def Abreast (c : Tandem) (s : State) : Option State → Prop
  | some t => c.abreast s t
  | none => c.alone s

/-- The parses are parted. -/
def Apart (c : Tandem) (s : State) (o : Option State) : Prop := ∃ t, o = some t ∧ c.parted s t

/-- The parses may be parted. -/
def Near (c : Tandem) (s : State) (o : Option State) : Prop := c.Abreast s o ∨ c.Apart s o

/-- The first parse is at a token of the kind. -/
def At (c : Tandem) (kind : TokenKind) (s : State) (o : Option State) : Prop :=
  c.Abreast s o ∧ s.current.kind = kind

/-- A token of the kind has been moved over. -/
def After (c : Tandem) (kind : TokenKind) (s : State) (o : Option State) : Prop :=
  c.Abreast s o ∨ endsStatement kind = true ∧ c.Apart s o

/-- How a parse ends, and another one beside it unless the first is alone. -/
inductive Ends (c : Tandem) (Q : α → β → Prop) (R : State → Option State → Prop) :
    EStateM.Result Stop State α → Option (EStateM.Result Stop State β) → Prop
  | ok {a : α} {b : β} {s t : State} : Q a b → R s (some t) → Ends c Q R (.ok a s) (some (.ok b t))
  | alone {a : α} {b : β} {s : State} {o : Option (EStateM.Result Stop State β)} :
      Q a b → R s none → Ends c Q R (.ok a s) o
  | problem {d e : Diagnostic} {s t : State} : c.diagnostic d e → c.abreast s t →
      Ends c Q R (.error (.problem d) s) (some (.error (.problem e) t))
  | aloneProblem {d : Diagnostic} {s : State} {o : Option (EStateM.Result Stop State β)} :
      c.alone s → Ends c Q R (.error (.problem d) s) o
  | partedProblem {d : Diagnostic} {s t : State} {o : Option (EStateM.Result Stop State β)} :
      c.parted s t → Ends c Q R (.error (.problem d) s) o
  | halted {fault : Decimal.NumeralFault} {s : State}
      {o : Option (EStateM.Result Stop State β)} :
      c.halts → Ends c Q R (.error (.unreadable fault) s) o
  | unreadable {fault fault' : Decimal.NumeralFault} {s t : State} :
      Ends c Q R (.error (.unreadable fault) s) (some (.error (.unreadable fault') t))
  | outOfFuel {s : State} {o : Option (EStateM.Result Stop State β)} :
      Ends c Q R (.error .outOfFuel s) o
  | outOfFuelBeside {r : EStateM.Result Stop State α} {t : State} :
      Ends c Q R r (some (.error .outOfFuel t))

/-- From states related by `P`, two parsers end in states related by `R`. -/
def Together (c : Tandem) (P : State → Option State → Prop) (Q : α → β → Prop)
    (R : State → Option State → Prop) (p : Parser α) (q : Parser β) : Prop :=
  ∀ s o, P s o → c.Ends Q R (p s) (o.map fun t => q t)

variable {c : Tandem} {P P' R R' : State → Option State → Prop} {Q : α → β → Prop}

/-! ## The rules of the judgement -/

/-- Nothing is said of the second parse, if the first one ends alone. -/
theorem Ends.beside {r : EStateM.Result Stop State α} (h : c.Ends Q R r none)
    (o : Option (EStateM.Result Stop State β)) : c.Ends Q R r o := by
  cases h with
  | alone hab hs => exact .alone hab hs
  | aloneProblem hs => exact .aloneProblem hs
  | partedProblem hs => exact .partedProblem hs
  | halted h => exact .halted h
  | outOfFuel => exact .outOfFuel

theorem Ends.imp {r : EStateM.Result Stop State α} {o : Option (EStateM.Result Stop State β)}
    (h : c.Ends Q R r o) (hR : ∀ s o, R s o → R' s o) : c.Ends Q R' r o := by
  cases h with
  | ok hab hs => exact .ok hab (hR _ _ hs)
  | alone hab hs => exact .alone hab (hR _ _ hs)
  | problem hd hs => exact .problem hd hs
  | aloneProblem hs => exact .aloneProblem hs
  | partedProblem hs => exact .partedProblem hs
  | halted h => exact .halted h
  | unreadable => exact .unreadable
  | outOfFuel => exact .outOfFuel
  | outOfFuelBeside => exact .outOfFuelBeside

/-- A parse that ends with a result is alone, or the second ends with one too. -/
theorem Ends.of_ok {a : α} {s : State} {r : EStateM.Result Stop State β}
    (h : c.Ends Q R (.ok a s) (some r)) (hfuel : ∀ t, r ≠ .error .outOfFuel t) :
    R s none ∨ ∃ b t, r = .ok b t ∧ Q a b ∧ R s (some t) := by
  cases h with
  | ok hab hs => exact .inr ⟨_, _, rfl, hab, hs⟩
  | alone _ hs => exact .inl hs
  | outOfFuelBeside => exact absurd rfl (hfuel _)

/-- A parse that ends with a problem is alone or parted, or the second ends with one too. -/
theorem Ends.of_problem {d : Diagnostic} {s : State} {r : EStateM.Result Stop State β}
    (h : c.Ends Q R (.error (.problem d) s) (some r)) (hfuel : ∀ t, r ≠ .error .outOfFuel t) :
    c.alone s ∨ (∃ t, c.parted s t) ∨
      ∃ e t, r = .error (.problem e) t ∧ c.diagnostic d e ∧ c.abreast s t := by
  cases h with
  | problem hd hs => exact .inr (.inr ⟨_, _, rfl, hd, hs⟩)
  | aloneProblem hs => exact .inl hs
  | partedProblem hs => exact .inr (.inl ⟨_, hs⟩)
  | outOfFuelBeside => exact absurd rfl (hfuel _)

section Rules

variable {p : Parser α} {q : Parser β}

theorem Together.pre (h : c.Together P Q R p q) (hP : ∀ s o, P' s o → P s o) :
    c.Together P' Q R p q :=
  fun s o hs => h s o (hP s o hs)

theorem Together.post (h : c.Together P Q R p q) (hR : ∀ s o, R s o → R' s o) :
    c.Together P Q R' p q :=
  fun s o hs => (h s o hs).imp hR

theorem Together.result {Q' : α → β → Prop} (h : c.Together P Q R p q)
    (hQ : ∀ a b, Q a b → Q' a b) : c.Together P Q' R p q := by
  intro s o hs
  have hends := h s o hs
  generalize p s = r, o.map (fun t => q t) = r' at hends
  cases hends with
  | ok hab hs => exact .ok (hQ _ _ hab) hs
  | alone hab hs => exact .alone (hQ _ _ hab) hs
  | problem hd hs => exact .problem hd hs
  | aloneProblem hs => exact .aloneProblem hs
  | partedProblem hs => exact .partedProblem hs
  | halted h => exact .halted h
  | unreadable => exact .unreadable
  | outOfFuel => exact .outOfFuel
  | outOfFuelBeside => exact .outOfFuelBeside

theorem Together.pure {a : α} {b : β} (h : Q a b) (hR : ∀ s o, P s o → R s o) :
    c.Together P Q R (Pure.pure a : Parser α) (Pure.pure b) := by
  intro s o hs
  cases o with
  | none => exact .alone h (hR _ _ hs)
  | some t => exact .ok h (hR _ _ hs)

theorem Together.bind {Q' : γ → δ → Prop} {f : α → Parser γ} {g : β → Parser δ}
    (hp : c.Together P Q R p q) (hf : ∀ a b, Q a b → c.Together R Q' R' (f a) (g b)) :
    c.Together P Q' R' (p >>= f) (q >>= g) := by
  intro s o hs
  have h := hp s o hs
  cases o with
  | none =>
    rw [bind_apply]
    simp only [Option.map_none] at h ⊢
    generalize p s = r at h
    cases h with
    | alone hab hs' => exact hf _ _ hab _ none hs'
    | aloneProblem hs' => exact .aloneProblem hs'
    | partedProblem hs' => exact .partedProblem hs'
    | halted h => exact .halted h
    | outOfFuel => exact .outOfFuel
  | some t =>
    rw [bind_apply]
    simp only [Option.map_some, bind_apply] at h ⊢
    generalize p s = r, q t = r' at h
    cases h with
    | ok hab hs' => exact hf _ _ hab _ (some _) hs'
    | alone hab hs' => exact (hf _ _ hab _ none hs').beside _
    | problem hd hs' => exact .problem hd hs'
    | aloneProblem hs' => exact .aloneProblem hs'
    | partedProblem hs' => exact .partedProblem hs'
    | halted h => exact .halted h
    | unreadable => exact .unreadable
    | outOfFuel => exact .outOfFuel
    | outOfFuelBeside => exact .outOfFuelBeside

/-- Parses that may be parted are abreast or parted. -/
theorem Together.near (h : c.Together c.Abreast Q R p q) (hapart : c.Together c.Apart Q R p q) :
    c.Together c.Near Q R p q := by
  intro s o hs
  obtain hs | hs := hs
  · exact h s o hs
  · exact hapart s o hs

theorem together_outOfFuel : c.Together P Q R (throw .outOfFuel : Parser α) q :=
  fun _ _ _ => .outOfFuel

/-- Nothing is said where the second parse is out of fuel. -/
theorem Together.outOfFuel_beside (h : c.Together P Q R p q) :
    c.Together P Q R p (throw .outOfFuel : Parser β) := by
  intro s o hs
  cases o with
  | none => exact h s none hs
  | some t => exact .outOfFuelBeside

/-- Parsers with the fuel of their states. -/
theorem Together.of_fuel {Q : α → α → Prop} {p : Parser α} {f : Nat → Parser α}
    (hp : ∀ s, p s = f s.fuel s) (h : ∀ fuel fuel', c.Together P Q R (f fuel) (f fuel')) :
    c.Together P Q R p p := by
  intro s o hs
  cases o with
  | none =>
    rw [hp s]
    exact h s.fuel s.fuel s none hs
  | some t =>
    simp only [Option.map_some, hp]
    exact h s.fuel t.fuel s (some t) hs

theorem Abreast.near {s : State} {o : Option State} (h : c.Abreast s o) : c.Near s o := .inl h

theorem At.abreast {kind : TokenKind} {s : State} {o : Option State} (h : c.At kind s o) :
    c.Abreast s o := h.1

theorem At.near {kind : TokenKind} {s : State} {o : Option State} (h : c.At kind s o) :
    c.Near s o := .inl h.1

theorem After.near {kind : TokenKind} {s : State} {o : Option State} (h : c.After kind s o) :
    c.Near s o := h.imp_right And.right

theorem After.abreast {kind : TokenKind} {s : State} {o : Option State} (h : c.After kind s o)
    (hkind : endsStatement kind = false) : c.Abreast s o := by
  obtain h | ⟨he, -⟩ := h
  · exact h
  · simp [hkind] at he

end Rules

/-! ## Looking at the current token -/

section Peek

variable {f : TokenKind → Parser α} {g : TokenKind → Parser β}

theorem together_peek (h : ∀ kind, c.Together (c.At kind) Q R (f kind) (g kind)) :
    c.Together c.Abreast Q R (peek >>= f) (peek >>= g) := by
  intro s o hs
  cases o with
  | none => exact h s.current.kind s none ⟨hs, rfl⟩
  | some t =>
    show c.Ends Q R (f s.current.kind s) (some (g t.current.kind t))
    rw [← c.kind (c.current hs)]
    exact h s.current.kind s (some t) ⟨hs, rfl⟩

/-- Where the parses are parted, the first looks at a semicolon and the second at a statement. -/
theorem together_peek_apart (h : ∀ kind, startsStatement kind = true →
      c.Together c.Apart Q R (f (.symbol .semicolon)) (g kind)) :
    c.Together c.Apart Q R (peek >>= f) (peek >>= g) := by
  rintro s o ⟨t, rfl, hs⟩
  show c.Ends Q R (f s.current.kind s) (some (g t.current.kind t))
  obtain ⟨hkind, hstarts⟩ := c.partedKind hs
  rw [hkind]
  exact h _ hstarts s (some t) ⟨t, rfl, hs⟩

theorem together_peek_near (h : ∀ kind, c.Together (c.At kind) Q R (f kind) (g kind))
    (hapart : ∀ kind, startsStatement kind = true →
      c.Together c.Apart Q R (f (.symbol .semicolon)) (g kind)) :
    c.Together c.Near Q R (peek >>= f) (peek >>= g) :=
  (together_peek h).near (together_peek_apart hapart)

end Peek

theorem together_currentLine (hP : ∀ s o, P s o → c.Abreast s o) :
    c.Together P c.likeness.line P currentLine currentLine := by
  intro s o hs
  have hline := hP s o hs
  cases o with
  | none =>
    obtain ⟨u, hu⟩ := c.aloneToken s.current hline
    exact .alone (c.line hu) hs
  | some t => exact .ok (c.line (c.current hline)) hs

/-! ## Moving on -/

theorem together_advance {kind : TokenKind} (hp : c.passes kind) (hk : kind ≠ .endOfFile) :
    c.Together (c.At kind) c.token (c.After kind) advance advance := by
  rintro s o ⟨hs, rfl⟩
  rw [advance_eq]
  cases o with
  | none =>
    cases hn : s.stream.next with
    | error fault => exact .halted (c.aloneHalts hs)
    | ok x =>
      obtain ⟨u, hu⟩ := c.aloneToken s.current hs
      exact .alone hu (.inl (c.aloneReceive _ _ hs))
  | some t =>
    simp only [Option.map_some, advance_eq]
    cases hn : s.stream.next with
    | error fault =>
      obtain hh | ⟨fault', hn'⟩ := c.nextFault hs hn
      · exact .halted hh
      · rw [hn']
        exact .unreadable
    | ok x =>
      obtain ⟨r, rest⟩ := x
      obtain ha | ⟨r', rest', hn', hs'⟩ := c.next hs hp hk hn
      · obtain ⟨u, hu⟩ : ∃ u, c.token s.current u := ⟨_, c.current hs⟩
        exact .alone hu (.inl ha)
      · rw [hn']
        exact .ok (c.current hs) (hs'.imp id fun h => ⟨h.1, _, rfl, h.2⟩)

/-- Moving over a token inside a statement. -/
theorem together_step {kind : TokenKind} (hf : followsStatement kind = false)
    (he : endsStatement kind = false) :
    c.Together (c.At kind) c.token c.Abreast advance advance := by
  have hk : kind ≠ .endOfFile := by rintro rfl; cases hf
  exact (together_advance (c.passesPlain hf) hk).post fun _ _ h => h.abreast he

theorem together_fail (p : Problem) (hP : ∀ s o, P s o → c.Abreast s o) :
    c.Together P Q R (fail p : Parser α) (fail p) := by
  intro s o hs
  have h := hP s o hs
  cases o with
  | none => exact .aloneProblem h
  | some t => exact .problem (c.diagnose p (c.current h)) h

/-- A problem at the semicolons that the second parse has not got. -/
theorem together_fail_apart (p : Problem) {q : Parser β} :
    c.Together c.Apart Q R (fail p : Parser α) q := by
  rintro s o ⟨t, rfl, hs⟩
  exact .partedProblem hs

theorem together_consume {kind : TokenKind} (p : Problem) (hp : c.passes kind)
    (hk : kind ≠ .endOfFile) :
    c.Together c.Abreast c.token (c.After kind) (consume kind p) (consume kind p) := by
  refine together_peek fun k => ?_
  split
  · next h =>
    subst h
    exact together_advance hp hk
  · exact together_fail p fun _ _ h => h.abreast

theorem together_consume_near {kind : TokenKind} (p : Problem) (hp : c.passes kind)
    (hk : kind ≠ .endOfFile) (hs : kind ≠ .symbol .semicolon) :
    c.Together c.Near c.token (c.After kind) (consume kind p) (consume kind p) := by
  refine (together_consume p hp hk).near (together_peek_apart fun k _ => ?_)
  rw [if_neg hs.symm]
  exact together_fail_apart p

/-- Moving over a token that must stand inside a statement. -/
theorem together_consume_step {kind : TokenKind} (p : Problem)
    (hf : followsStatement kind = false) (he : endsStatement kind = false) :
    c.Together c.Near c.token c.Abreast (consume kind p) (consume kind p) := by
  have hk : kind ≠ .endOfFile := by rintro rfl; cases hf
  have hs : kind ≠ .symbol .semicolon := by rintro rfl; cases hf
  exact (together_consume_near p (c.passesPlain hf) hk hs).post fun _ _ h => h.abreast he

/-! ## Diagnostics -/

theorem together_report {d e : Diagnostic} (hb : c.blocks) (h : c.diagnostic d e) :
    c.Together c.Abreast (fun _ _ => True)
      (fun s o => c.Abreast s o ∧ (o.isSome = true → ∀ u v, ¬c.parted u v))
      (report d) (report e) := by
  intro s o hs
  cases o with
  | none => exact .alone (b := ()) trivial ⟨c.aloneReported d hs, by simp⟩
  | some t =>
    obtain ha | ⟨hparted, hs'⟩ := c.reported hb hs h
    · exact .alone (b := ()) trivial ⟨ha, by simp⟩
    · exact .ok trivial ⟨hs', fun _ => hparted⟩

theorem together_complain (p : Problem) (hb : c.blocks) :
    c.Together c.Abreast (fun _ _ => True) c.Abreast (complain p) (complain p) := by
  intro s o hs
  cases o with
  | none => exact .alone (b := ()) trivial (c.aloneReported _ hs)
  | some t =>
    have h := together_report hb (c.diagnose p (c.current hs)) s (some t) hs
    exact h.imp fun _ _ h => h.1

theorem together_expect {kind : TokenKind} (p : Problem) (hb : c.blocks) (hp : c.passes kind)
    (hk : kind ≠ .endOfFile) (hs : kind ≠ .symbol .semicolon) :
    c.Together c.Near Eq (c.After kind) (expect kind p) (expect kind p) := by
  refine together_peek_near (fun k => ?_) fun k _ => ?_
  · split
    · next h =>
      subst h
      exact (together_advance hp hk).bind fun _ _ _ => .pure rfl fun _ _ h => h
    · refine ((together_complain p hb).pre fun _ _ h => h.abreast).bind fun _ _ _ => ?_
      exact .pure rfl fun _ _ h => .inl h
  · rw [if_neg hs.symm]
    rintro s o ⟨t, rfl, hs⟩
    exact .alone (b := false) rfl (.inl (c.partedReported _ hs))

theorem together_end (hb : c.blocks) :
    c.Together c.Near Eq c.Near (expect (.keyword .END) .expectingEnd)
      (expect (.keyword .END) .expectingEnd) :=
  (together_expect _ hb (c.passesEnd hb) (by simp) (by simp)).post fun _ _ h => h.near

/-- One step of skipping, which ends at the end of the text. -/
theorem skipAmong_eq {ends : TokenKind → Bool} (hend : ends .endOfFile = true) (s : State) :
    skipAmong ends s.stream.ending s.stream.items s =
      if ends s.current.kind then .ok () s
      else match s.stream.next with
        | .error fault => .error (.unreadable fault) s
        | .ok (r, rest) => skipAmong ends rest.ending rest.items (s.receive r rest) := by
  obtain ⟨current, ⟨items, ending⟩, table, strict, problems, tokenProblems, log⟩ := s
  cases items with
  | nil =>
    cases ending with
    | unreadable fault => rfl
    | endOfFile line => simp [skipAmong, Stream.next, State.receive, Token.endOfFile, hend]
  | cons r rest => rfl

theorem skipSemicolons_of_ne {s : State} (h : s.current.kind ≠ .symbol .semicolon) :
    skipSemicolons s = .ok () s := by
  have hends : (s.current.kind != .symbol .semicolon) = true := by simpa using h
  rw [skipSemicolons, skipAmong_eq rfl, if_pos hends]

theorem skipSemicolons_of_next {s : State} (h : s.current.kind = .symbol .semicolon) {r : Reading}
    {rest : Stream} (hn : s.stream.next = .ok (r, rest)) :
    skipSemicolons s = skipSemicolons (s.receive r rest) := by
  have hends : ¬(s.current.kind != .symbol .semicolon) = true := by simp [h]
  rw [skipSemicolons, skipAmong_eq rfl, if_neg hends, hn]
  rfl

theorem skipSemicolons_of_error {s : State} (h : s.current.kind = .symbol .semicolon)
    {fault : Decimal.NumeralFault} (hn : s.stream.next = .error fault) :
    skipSemicolons s = .error (.unreadable fault) s := by
  have hends : ¬(s.current.kind != .symbol .semicolon) = true := by simp [h]
  rw [skipSemicolons, skipAmong_eq rfl, if_neg hends, hn]

theorem ends_skip_alone (ends : TokenKind → Bool) (ending : Ending) (items : List Reading)
    {s : State} (hs : c.alone s) :
    c.Ends (fun _ (_ : Unit) => True) c.Abreast (skipAmong ends ending items s) none := by
  induction items generalizing s with
  | nil =>
    unfold skipAmong
    split
    · exact .alone (b := ()) trivial hs
    · cases ending with
      | endOfFile line => exact .alone (b := ()) trivial (c.aloneReceive _ _ hs)
      | unreadable fault => exact .halted (c.aloneHalts hs)
  | cons r rest ih =>
    unfold skipAmong
    split
    · exact .alone (b := ()) trivial hs
    · exact ih (c.aloneReceive _ _ hs)

/-- Skipping goes along with itself, where the tokens skipped are moved over one by one. -/
theorem ends_skip {ends : TokenKind → Bool} (hend : ends .endOfFile = true)
    (hpass : ∀ k, ends k = false → c.passes k)
    (hquiet : (∀ k, ends k = false → endsStatement k = false) ∨ ∀ u v, ¬c.parted u v)
    {s t : State} (hs : c.abreast s t) :
    c.Ends (fun _ _ => True) c.Abreast (skipAmong ends s.stream.ending s.stream.items s)
      (some (skipAmong ends t.stream.ending t.stream.items t)) := by
  -- At the end of the text skipping ends, so the bound gets smaller with every token.
  obtain ⟨count, hcount⟩ : ∃ count, (if ends s.current.kind then 0 else
    s.stream.items.length + 1) ≤ count := ⟨_, le_rfl⟩
  induction count generalizing s t with
  | zero =>
    have hk : ends s.current.kind = true := by
      by_contra hk
      rw [if_neg hk] at hcount
      omega
    rw [skipAmong_eq hend s, skipAmong_eq hend t, ← c.kind (c.current hs), if_pos hk, if_pos hk]
    exact .ok trivial hs
  | succ count ih =>
    rw [skipAmong_eq hend s, skipAmong_eq hend t, ← c.kind (c.current hs)]
    cases hk : ends s.current.kind with
    | true => exact .ok trivial hs
    | false =>
    have hne : s.current.kind ≠ .endOfFile := by
      intro h
      rw [h, hend] at hk
      cases hk
    cases hn : s.stream.next with
    | error fault =>
      obtain hh | ⟨fault', hn'⟩ := c.nextFault hs hn
      · exact .halted hh
      · rw [hn']
        exact .unreadable
    | ok x =>
      obtain ⟨r, rest⟩ := x
      obtain ha | ⟨r', rest', hn', hs' | ⟨he, hp⟩⟩ := c.next hs (hpass _ hk) hne hn
      · exact (ends_skip_alone ends _ _ ha).beside _
      · rw [hn']
        refine ih hs' ?_
        rw [hk] at hcount
        obtain ⟨hitems, -⟩ | ⟨-, rfl, line, -, rfl⟩ := Stream.next_eq_ok hn
        · have hrest : rest.items.length + 1 ≤ count := by
            simpa [hitems] using hcount
          split
          · omega
          · simpa [State.receive] using hrest
        · simp [State.receive, Token.endOfFile, hend]
      · obtain hq | hq := hquiet
        · simp [hq _ hk] at he
        · exact absurd hp (hq _ _)

theorem together_skipSemicolons (hb : c.blocks) :
    c.Together (c.At (.symbol .semicolon)) (fun _ _ => True) c.Abreast
      skipSemicolons skipSemicolons := by
  rintro s o ⟨hs, hk⟩
  cases o with
  | none => exact ends_skip_alone _ _ _ hs
  | some t =>
    obtain hpass | ⟨hh, hrun⟩ := c.semicolons hb
    · -- Only semicolons are skipped, and no statement ends with one.
      have hsemicolon : ∀ k : TokenKind, (k != .symbol .semicolon) = false →
          k = .symbol .semicolon := fun k h => by simpa using h
      refine ends_skip rfl (fun k h => ?_) (.inl fun k h => ?_) hs
      · rwa [hsemicolon k h]
      · rw [hsemicolon k h]
        rfl
    · cases he : skipSemicolons s with
      | ok x u =>
        obtain ⟨v, hv, hs'⟩ := hrun s t u hs hk he
        rw [Option.map_some, hv]
        exact .ok trivial hs'
      | error e u =>
        cases e with
        | problem d => exact absurd he (handles_skipSemicolons s d u)
        | unreadable fault => exact .halted hh
        | outOfFuel => exact .outOfFuel

section Recovery

variable {followers : TokenKind → Bool} {d e : Diagnostic}

theorem together_recover (hb : c.blocks) (hpass : ∀ k, stopsAt followers k = false → c.passes k)
    (h : c.diagnostic d e) :
    c.Together c.Abreast (fun _ _ => True) c.Abreast
      (recover followers d) (recover followers e) := by
  refine (together_report hb h).bind fun _ _ _ s o hs => ?_
  cases o with
  | none => exact ends_skip_alone _ _ _ hs.1
  | some t => exact ends_skip (by simp [stopsAt]) hpass (.inr (hs.2 rfl)) hs.1

/-- A problem that leaves the first parse alone. -/
theorem ends_recover_alone {s : State} (h : c.alone (s.reported d)) :
    c.Ends (Option.Rel Q) c.Abreast ((do recover followers d; return none) s) none := by
  have hreport : c.Together (fun s o => o = none ∧ c.alone (s.reported d)) (fun _ _ => True)
      (fun s o => o = none ∧ c.alone s) (report d) (report d) := by
    rintro s o ⟨rfl, hs⟩
    exact .alone (b := ()) trivial ⟨rfl, hs⟩
  have hskip : c.Together (fun s o => o = none ∧ c.alone s) (fun _ _ => True) c.Abreast
      (skipTo followers) (skipTo followers) := by
    rintro s o ⟨rfl, hs⟩
    exact ends_skip_alone _ _ _ hs
  have hnone : c.Together c.Abreast (Option.Rel Q) c.Abreast (Pure.pure none : Parser (Option α))
      (Pure.pure none) := .pure .none fun _ _ h => h
  exact ((hreport.bind fun _ _ _ => hskip).bind fun _ _ _ => hnone) s none ⟨rfl, h⟩

/-- What becomes of a parse that is attempted. -/
def settled (followers : TokenKind → Bool) :
    EStateM.Result Stop State α → EStateM.Result Stop State (Option α)
  | .ok a s => .ok (some a) s
  | .error (.problem d) s => (do recover followers d; return none : Parser (Option α)) s
  | .error e s => .error e s

theorem attempt_apply (p : Parser α) (s : State) :
    attempt followers p s = settled followers (p s) := by
  unfold attempt
  cases p s with
  | ok a t => rfl
  | error e t =>
    cases e with
    | problem d =>
      show _ = (recover followers d >>= fun _ => Pure.pure none) t
      rw [bind_apply]
      dsimp only
      cases recover followers d t <;> rfl
    | _ => rfl

theorem together_attempt {p : Parser α} {q : Parser β} (hb : c.blocks)
    (hpass : ∀ k, stopsAt followers k = false → c.passes k) (h : c.Together c.Abreast Q R p q)
    (hR : ∀ s o, c.Abreast s o → R s o) :
    c.Together c.Abreast (Option.Rel Q) R (attempt followers p) (attempt followers q) := by
  intro s o hs
  have hpq := h s o hs
  have hmap : o.map (fun t => attempt followers q t) =
      (o.map fun t => q t).map (settled followers) := by
    simp only [Option.map_map, Function.comp_def, attempt_apply]
  rw [attempt_apply, hmap]
  generalize p s = r, (o.map fun t => q t) = r' at hpq
  cases hpq with
  | ok hab hs' => exact .ok (.some hab) hs'
  | alone hab hs' => exact .alone (.some hab) hs'
  | @problem d e u v hd hs' =>
    have hnone : c.Together c.Abreast (Option.Rel Q) R (Pure.pure none : Parser (Option α))
        (Pure.pure none) := .pure .none hR
    exact ((together_recover hb hpass hd).bind fun _ _ _ => hnone) u (some v) hs'
  | aloneProblem hs' => exact ((ends_recover_alone (c.aloneReported _ hs')).beside _).imp hR
  | partedProblem hs' => exact ((ends_recover_alone (c.partedReported _ hs')).beside _).imp hR
  | halted h => exact .halted h
  | unreadable => exact .unreadable
  | outOfFuel => exact .outOfFuel
  | outOfFuelBeside => exact .outOfFuelBeside

/-- Recovery in a list moves only over tokens inside statements. -/
theorem passes_of_not_stopsAt {k : TokenKind} (h : stopsAt followsStatement k = false) :
    c.passes k :=
  c.passesPlain (Bool.or_eq_false_iff.1 h).1

end Recovery

/-! ## Names -/

/-- The variable of a token, whose name is entered. -/
def variableOf (assigned : Bool) (t : Token) : Parser Node := fun s =>
  .ok (operation .var t []) (s.named t assigned)

theorem variableNode_eq (assigned : Bool) :
    variableNode assigned = consume .identifier .expectingIdentifier >>= variableOf assigned := by
  funext s
  rw [bind_apply, variableNode_apply]
  cases consume .identifier .expectingIdentifier s <;> rfl

theorem together_variableOf {t u : Token} {Q : Node → Node → Prop} (assigned : Bool)
    (h : c.token t u) (htree : Q (operation .var t []) (operation .var u [])) :
    c.Together c.Near Q c.Near (variableOf assigned t) (variableOf assigned u) := by
  rintro s o (hs | ⟨v, rfl, hs⟩)
  · cases o with
    | none => exact .alone htree (.inl (c.aloneNamed t assigned hs))
    | some v =>
      obtain ha | hs' := c.named assigned hs h
      · exact .alone htree (.inl ha)
      · exact .ok htree (.inl hs')
  · obtain ha | hs' := c.partedNamed assigned hs h
    · exact .alone htree (.inl ha)
    · exact .ok htree (.inr ⟨_, rfl, hs'⟩)

/-- A token with which a statement can end. -/
theorem together_consume_last {kind : TokenKind} (p : Problem)
    (hf : followsStatement kind = false) :
    c.Together c.Near c.token c.Near (consume kind p) (consume kind p) := by
  have hk : kind ≠ .endOfFile := by rintro rfl; cases hf
  have hs : kind ≠ .symbol .semicolon := by rintro rfl; cases hf
  exact (together_consume_near p (c.passesPlain hf) hk hs).post fun _ _ h => h.near

/-- Variables are related as the nodes of tokens that correspond. -/
theorem together_variable {Q : Node → Node → Prop} (assigned : Bool)
    (h : ∀ {t u : Token}, c.token t u → Q (operation .var t []) (operation .var u [])) :
    c.Together c.Near Q c.Near (variableNode assigned) (variableNode assigned) := by
  rw [variableNode_eq]
  exact (together_consume_last _ rfl).bind fun _ _ ht => together_variableOf assigned ht (h ht)

theorem together_variableNode (assigned : Bool) :
    c.Together c.Near c.Tree c.Near (variableNode assigned) (variableNode assigned) :=
  together_variable assigned fun ht => Wording.resembles_operation .var ht .nil

theorem together_integerNode (p : Problem) :
    c.Together c.Near c.Tree c.Near (integerNode p) (integerNode p) :=
  (together_consume_last p rfl).bind fun _ _ ht =>
    .pure (Wording.resembles_nodeAt .integer ht) fun _ _ h => h

end Tandem

end MiniPascal.Parsing
