import MiniPascal.Proofs.Parsing.TandemParse

/-!
# Two parses that correspond

Two parses can differ in ways that do not matter for where they go. A `Correspondence` says which
tokens, diagnostics and states correspond, and that the steps of parsing keep to it: reading a
token, reporting a problem, and entering a name.

Such parses go in tandem and are abreast all the time (`Correspondence.tandem`). So the trees of
programs resemble each other, and parses of whole streams correspond (`Correspondence.parse?`).
-/

namespace MiniPascal.Parsing

/-- In which ways two parses may differ. -/
structure Correspondence extends Wording where
  state : State → State → Prop
  current {s t : State} : state s t → token s.current t.current
  /-- The next tokens can be read from both states or from neither. -/
  next {s t : State} : state s t →
    (∃ r r' rest rest', s.stream.next = .ok (r, rest) ∧ t.stream.next = .ok (r', rest') ∧
      state (s.receive r rest) (t.receive r' rest')) ∨
    ∃ fault fault', s.stream.next = .error fault ∧ t.stream.next = .error fault'
  reported {s t : State} {d e : Diagnostic} : state s t → diagnostic d e →
    state (s.reported d) (t.reported e)
  entered {s t : State} {a b : Token} : state s t → token a b →
    state (s.entered a.text) (t.entered b.text)
  named {s t : State} {a b : Token} (assigned : Bool) : state s t → token a b →
    state (s.named a assigned) (t.named b assigned)

namespace Correspondence

/-- Parses that correspond are abreast all the time. -/
def tandem (c : Correspondence) : Tandem where
  toWording := c.toWording
  abreast := c.state
  parted _ _ := False
  alone _ := False
  passes _ := True
  blocks := True
  halts := False
  passesPlain _ := trivial
  passesEnd _ := trivial
  passesUntil _ := trivial
  aloneToken _ := False.elim
  aloneHalts := id
  aloneBlocks := False.elim
  aloneReceive _ _ := id
  aloneReported _ := id
  aloneNamed _ _ := id
  aloneEntered _ := id
  current := c.current
  opens _ _ := trivial
  next h _ _ hn := by
    obtain ⟨r, r', rest, rest', hr, hr', hs⟩ | ⟨fault, fault', hr, -⟩ := c.next h
    · obtain ⟨rfl, rfl⟩ := Prod.mk.inj (Except.ok.inj (hn.symm.trans hr))
      exact .inr ⟨r', rest', hr', .inl hs⟩
    · rw [hr] at hn
      cases hn
  nextFault h hn := by
    obtain ⟨r, r', rest, rest', hr, -⟩ | ⟨fault, fault', -, hr'⟩ := c.next h
    · rw [hr] at hn
      cases hn
    · exact .inr ⟨fault', hr'⟩
  reported _ h hd := .inr ⟨fun _ _ => id, c.reported h hd⟩
  named assigned h ht := .inr (c.named assigned h ht)
  entered := c.entered
  semicolons _ := .inl trivial
  partedHalts := id
  partedKind := @Tandem.never_parted
  partedReported _ := id
  partedNamed _ h _ := h.elim
  join h := h.elim

variable {c : Correspondence}

/-- From states that correspond, programs are parsed on both sides or on none. -/
theorem ends_program {s t : State} (h : c.state s t) :
    c.tandem.Ends c.tandem.Tree c.tandem.Abreast (program s) (some (program t)) :=
  Tandem.together_program trivial (Tandem.together_currentLine fun _ _ h => h)
    (Tandem.together_header trivial (fun _ _ => trivial) fun _ _ => id) s (some t) h

/-! ## Parsing from the start -/

/-- Parses that start from states that correspond, or cannot start, correspond. -/
theorem parse? {stream stream' : Stream} {table table' : Table} {strict strict' : Bool}
    (h : (∃ s t, State.start stream table strict = .ok s ∧
        State.start stream' table' strict' = .ok t ∧ c.state s t) ∨
      ∃ fault fault', State.start stream table strict = .error fault ∧
        State.start stream' table' strict' = .error fault') :
    Option.Rel (fun p p' => c.Tree p.1 p'.1 ∧ c.state p.2 p'.2)
      (Parsing.parse? stream table strict) (Parsing.parse? stream' table' strict') := by
  unfold Parsing.parse?
  obtain ⟨s, t, hs, hs', hst⟩ | ⟨fault, fault', hs, hs'⟩ := h
  · rw [hs, hs']
    have hends := ends_program hst
    have hfuel := Tandem.program_ne_outOfFuel s
    have hfuel' := Tandem.program_ne_outOfFuel t
    dsimp only
    generalize program s = r, program t = r' at hends hfuel hfuel'
    cases hends with
    | ok hn hu => exact .some ⟨hn, hu⟩
    | alone _ hu => exact hu.elim
    | problem => exact .none
    | aloneProblem h => exact h.elim
    | partedProblem h => exact h.elim
    | halted h => exact h.elim
    | unreadable => exact .none
    | outOfFuel => exact absurd rfl (hfuel _)
    | outOfFuelBeside => exact absurd rfl (hfuel' _)
  · rw [hs, hs']
    exact .none

end Correspondence

end MiniPascal.Parsing
