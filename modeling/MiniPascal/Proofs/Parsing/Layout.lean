import MiniPascal.Proofs.Parsing.Correspondence
import MiniPascal.Proofs.Token.Layout

/-!
# Parsing up to layout and letter case

No parser looks at a line or at the case of a letter. So parses of tokens that are alike correspond
(`Correspondence.layout`).

**Layout and letter case do not matter for parsing** (`parse?_alike`). From streams of tokens that
are alike the trees resemble each other up to layout, the same problems are reported, and the tables
have the same keys in the same order.
-/

namespace MiniPascal

/-- Texts of nodes that have the same letters, or are both missing. -/
def Value.TextAlike (v w : Value) : Prop :=
  v = .null ∧ w = .null ∨ ∃ s t : String, v = .text s ∧ w = .text t ∧ SameLetters s t

theorem Value.textAlike {s t : String} (h : SameLetters s t) : TextAlike (.text s) (.text t) :=
  .inr ⟨s, t, rfl, rfl, h⟩

/-- The likeness that leaves out lines and the letter case of texts. -/
def Likeness.layout : Likeness where
  line v w := ∃ i j : Int, v = .int i ∧ w = .int j
  text := Value.TextAlike
  name := Value.TextAlike

/-- Trees that differ only in their lines and in letter case. -/
abbrev Node.Alike (n n' : Node) : Prop := n.Resembles .layout n'

namespace Parsing

/-- States of parsing that differ only in lines and in letter case. -/
structure State.Alike (s t : State) : Prop where
  current : s.current.Alike t.current
  stream : s.stream.Alike t.stream
  table : s.table.contents = t.table.contents
  strict : s.strict = t.strict
  problems : s.problems = t.problems
  tokenProblems : s.tokenProblems = t.tokenProblems
  log : List.Forall₂ Event.Alike s.log.toList t.log.toList

section Steps

variable {s t : State}

theorem State.Alike.receive (h : s.Alike t) {r q : Reading} (hr : r.Alike q)
    {rest rest' : Stream} (hrest : rest.Alike rest') :
    (s.receive r rest).Alike (t.receive q rest') where
  current := hr.token
  stream := hrest
  table := h.table
  strict := h.strict
  problems := h.problems
  tokenProblems := by
    simp only [State.receive, h.tokenProblems, hr.isSome_report]
  log := by
    simpa [State.receive] using List.rel_append h.log hr.events

/-- The next tokens are alike, or neither can be read. -/
theorem State.Alike.next (h : s.Alike t) :
    (∃ r r' rest rest', s.stream.next = .ok (r, rest) ∧ t.stream.next = .ok (r', rest') ∧
      (s.receive r rest).Alike (t.receive r' rest')) ∨
    ∃ fault fault', s.stream.next = .error fault ∧ t.stream.next = .error fault' := by
  obtain ⟨current, ⟨items, ending⟩, table, strict, problems, tokenProblems, log⟩ := s
  obtain ⟨current', ⟨items', ending'⟩, table', strict', problems', tokenProblems', log'⟩ := t
  obtain ⟨hitems, hending⟩ := h.stream
  cases hitems with
  | cons hr hrest => exact .inl ⟨_, _, _, _, rfl, rfl, h.receive hr ⟨hrest, hending⟩⟩
  | nil =>
    cases hending with
    | endOfFile line line' =>
      have hr := Reading.alike_endOfFile line line'
      exact .inl ⟨_, _, _, _, rfl, rfl, h.receive hr ⟨.nil, .endOfFile line line'⟩⟩
    | unreadable fault fault' => exact .inr ⟨fault, fault', rfl, rfl⟩

theorem State.Alike.reported (h : s.Alike t) {d e : Diagnostic} (hd : d.Alike e) :
    (s.reported d).Alike (t.reported e) where
  current := h.current
  stream := h.stream
  table := h.table
  strict := h.strict
  problems := congrArg (· + 1) h.problems
  tokenProblems := h.tokenProblems
  log := by simpa [State.reported] using List.rel_append h.log (.cons (.report hd) .nil)

theorem State.Alike.entered (h : s.Alike t) {name other : String}
    (hn : SameLetters name other) : (s.entered name).Alike (t.entered other) :=
  { h with table := Table.contents_enter_congr h.table (Text.lower_eq hn) }

theorem State.Alike.named (h : s.Alike t) {tok tok' : Token} (ht : tok.Alike tok')
    (assigned : Bool) : (s.named tok assigned).Alike (t.named tok' assigned) := by
  have hknown : s.table.contains tok.text = t.table.contains tok'.text :=
    Table.contains_congr_contents h.table (Text.lower_eq ht.text)
  unfold State.named
  rw [h.strict, hknown]
  split
  · exact (h.reported (ht.diagnose _)).entered ht.text
  · exact h.entered ht.text

end Steps

/-- Parses that differ only in lines and in letter case. -/
def Correspondence.layout : Correspondence where
  likeness := .layout
  token := Token.Alike
  diagnostic := Diagnostic.Alike
  state := State.Alike
  kind h := h.kind
  literal h := h.literal
  line _ := ⟨_, _, rfl, rfl⟩
  text h := Value.textAlike h.text
  name h := Value.textAlike h.text
  noText := .inl ⟨rfl, rfl⟩
  noName := .inl ⟨rfl, rfl⟩
  madeText text := Value.textAlike (.refl text)
  madeName text := Value.textAlike (.refl text)
  diagnose p h := h.diagnose p
  current h := h.current
  next h := h.next
  reported h hd := h.reported hd
  entered h ht := h.entered ht.text
  named assigned h ht := h.named ht assigned

/-! ## Parsing from the start -/

theorem State.Alike.reports {s t : State} (h : s.Alike t) :
    List.Forall₂ Diagnostic.Alike s.reports t.reports := by
  refine List.rel_filterMap (fun event event' he => ?_) h.log
  cases he with
  | read => exact .none
  | report hd => exact .some hd

theorem State.Alike.keys {s t : State} (h : s.Alike t) :
    s.table.cells.map (·.key) = t.table.cells.map (·.key) := by
  simpa [Table.contents, Function.comp_def] using congrArg (List.map (·.1)) h.table

theorem State.Alike.errorCount {s t : State} (h : s.Alike t) : s.errorCount = t.errorCount := by
  simp only [State.errorCount, h.problems, h.tokenProblems]

section Start

variable {stream stream' : Stream} {table table' : Table} (h : stream.Alike stream')
  (ht : table.contents = table'.contents) (strict : Bool)

include h ht

/-- Parsing starts alike, or both first tokens cannot be read. -/
theorem State.alike_start :
    (∃ s t, State.start stream table strict = .ok s ∧ State.start stream' table' strict = .ok t ∧
      s.Alike t) ∨
    ∃ fault fault', State.start stream table strict = .error fault ∧
      State.start stream' table' strict = .error fault' := by
  obtain ⟨items, ending⟩ := stream
  obtain ⟨items', ending'⟩ := stream'
  have hblank : ∀ {r q : Reading}, r.Alike q →
      State.Alike { current := r.token, stream := ⟨items, ending⟩, table, strict }
        { current := q.token, stream := ⟨items', ending'⟩, table := table', strict } :=
    fun hr => ⟨hr.token, h, ht, rfl, rfl, rfl, .nil⟩
  obtain ⟨hitems, hending⟩ := id h
  cases hitems with
  | cons hr hrest => exact .inl ⟨_, _, rfl, rfl, (hblank hr).receive hr ⟨hrest, hending⟩⟩
  | nil =>
    cases hending with
    | endOfFile line line' =>
      have hr := Reading.alike_endOfFile line line'
      exact .inl ⟨_, _, rfl, rfl, (hblank hr).receive hr h⟩
    | unreadable fault fault' => exact .inr ⟨fault, fault', rfl, rfl⟩

/-- **Layout and letter case do not matter for parsing.** Both streams hold a program, or neither
does; then the trees and the states in which parsing ends are alike. -/
theorem parse?_alike :
    Option.Rel (fun p p' => p.1.Alike p'.1 ∧ p.2.Alike p'.2) (parse? stream table strict)
      (parse? stream' table' strict) :=
  Correspondence.layout.parse? (State.alike_start h ht strict)

end Start

end Parsing

end MiniPascal
