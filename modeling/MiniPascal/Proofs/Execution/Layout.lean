import MiniPascal.Proofs.Execution.Store
import MiniPascal.Proofs.Execution.Typing
import MiniPascal.Proofs.Parsing.Layout

/-!
# Runs up to layout and letter case

A program sees of its table only the keys and the values, and the keys are the same in any letter
case. Lines and spellings go into faults, notes and the trace, and nowhere else.

**Layout and letter case do not matter** (`parse?_sameProgram`). Program texts whose tokens are
alike are parsed to programs that are the same up to lines and spellings: with the same diagnostics,
the same keys, and runs that put out the same, leave the same values and end the same way.
-/

namespace MiniPascal

open Parsing (State parse? parse?_alike)

namespace Execution

/-- The machines have put out the same, and have the same values under the same keys. -/
structure SameSight (m m' : Machine) : Prop where
  output : m.output = m'.output
  values : m.table.contents = m'.table.contents

/-- Runs end the same way: well, for want of fuel, or with faults of one class. -/
inductive SameEnd : EStateM.Result Stop Machine Unit → EStateM.Result Stop Machine Unit → Prop
  | ok {m m' : Machine} : SameSight m m' → SameEnd (.ok () m) (.ok () m')
  | outOfFuel {m m' : Machine} :
      SameSight m m' → SameEnd (.error .outOfFuel m) (.error .outOfFuel m')
  | fault {f f' : Fault} {m m' : Machine} :
      SameClass f f' → SameSight m m' → SameEnd (.error (.fault f) m) (.error (.fault f') m')

theorem shown_of_text {v w : Value} (h : Likeness.layout.text v w) : Shown v ∧ Shown w := by
  obtain ⟨rfl, rfl⟩ | ⟨s, t, rfl, rfl, -⟩ := h
  · exact ⟨shown_null, shown_null⟩
  · exact ⟨shown_string s, shown_string t⟩

theorem shown_of_line {v w : Value} (h : Likeness.layout.line v w) : Shown v ∧ Shown w := by
  obtain ⟨i, j, rfl, rfl⟩ := h
  exact ⟨shown_int i, shown_int j⟩

theorem Note.Resembles.writable {n n' : Note} (h : n.Resembles .layout n') :
    n.Writable ∧ n'.Writable := by
  cases h with
  | wrote text => exact ⟨Note.writable (by simp [values]), Note.writable (by simp [values])⟩
  | assigned ht =>
    have hshown := shown_of_text ht
    exact ⟨Note.writable (by simp [values, hshown]), Note.writable (by simp [values, hshown])⟩
  | decided hl | tested hl | unmatched hl =>
    have hshown := shown_of_line hl
    exact ⟨Note.writable (by simp [values, hshown]), Note.writable (by simp [values, hshown])⟩
  | selected hl hb =>
    have hline := shown_of_line hl
    have hbranch := shown_of_line hb
    exact ⟨Note.writable (by simp [values, hline, hbranch]),
      Note.writable (by simp [values, hline, hbranch])⟩

/-- Neither lines nor spellings reach what a program can see. -/
theorem likeExecution_layout : LikeExecution .layout SameSight SameClass where
  refl := SameClass.refl
  wrongType _ _ _ := rfl
  division _ _ := rfl
  note h := by
    intro m m' hm
    obtain ⟨⟨s, hs⟩, ⟨s', hs'⟩⟩ := h.writable
    rw [note_of_writable hs, note_of_writable hs']
    exact ⟨rfl, hm.output, hm.values⟩
  read h := by
    obtain ⟨rfl, rfl⟩ | ⟨s, t, rfl, rfl, hletters⟩ := h
    · exact .raise rfl
    · refine .readVariable SameClass.refl fun hm => ?_
      exact Table.value_congr hm.values (Text.lower_eq hletters)
  line hm _ := ⟨hm.output, hm.values⟩
  output text hm := ⟨congrArg (· ++ text) hm.output, hm.values⟩
  write x hk hk' h := by
    obtain ⟨hn, hn'⟩ | ⟨s, t, hs, ht, hletters⟩ := h
    · rw [writeVariable_eq_raise (by simp [hn]), writeVariable_eq_raise (by simp [hn'])]
      exact .raise rfl
    · have hkey := Text.lower_eq hletters
      refine .writeVariable SameClass.refl hk hk' hs ht x (fun hm => ?_) fun hm _ => ?_
      · exact Table.contains_congr_contents hm.values hkey
      · exact ⟨hm.output, Table.contents_set_congr hm.values hkey _⟩

/-- Programs that are alike run alike, from machines that a program cannot tell apart. -/
theorem sameEnd_run {n n' : Node} (h : n.Alike n') (fuel : Nat) {m m' : Machine}
    (hm : SameSight m m') : SameEnd (run fuel n m) (run fuel n' m') := by
  have hrun := alike_run likeExecution_layout (.refl True fuel) h m m' hm
  obtain ⟨a, u, u', he, he', hu⟩ | ⟨u, u', he, he', hu⟩ | ⟨f, f', u, u', he, he', hf, hu⟩ :=
    hrun.cases
  · rw [he, he']
    exact .ok hu
  · rw [he, he']
    exact .outOfFuel hu
  · rw [he, he']
    exact .fault hf hu

/-- Parsed programs, each with the state in which parsing ended, that are the same up to lines and
letter case, and do the same. -/
structure SameProgram (p p' : Node × State) : Prop where
  tree : p.1.Alike p'.1
  diagnostics : List.Forall₂ Diagnostic.Alike p.2.reports p'.2.reports
  errorCount : p.2.errorCount = p'.2.errorCount
  keys : p.2.table.cells.map (·.key) = p'.2.table.cells.map (·.key)
  runs : ∀ (fuel : Nat) (m : Machine), SameEnd (run fuel p.1 { m with table := p.2.table })
    (run fuel p'.1 { m with table := p'.2.table })

/-- **Layout and letter case never change what a program does.** Let the tokens of two program texts
be alike: they have the same kinds and values, and texts with the same letters, on any lines. Parsed
into new tables in the same mode, both texts give a program or neither does, and both do if all
tokens can be read. The programs are the same up to lines and letter case: they have the same
diagnostics and the same keys, and runs of them put out the same, leave the same values and end the
same way. -/
theorem parse?_sameProgram {source source' : String} (strict : Bool)
    (h : (Stream.ofSource source).TokensAlike (.ofSource source')) :
    (∀ line, (Stream.ofSource source).ending = .endOfFile line →
      (parse? (.ofSource source) {} strict).isSome = true) ∧
    Option.Rel SameProgram (parse? (.ofSource source) {} strict)
      (parse? (.ofSource source') {} strict) := by
  refine ⟨fun line hend => Parsing.isSome_parse? hend {} strict, ?_⟩
  have hfresh : ({} : Table).contents = ({} : Table).contents := rfl
  have hparse := parse?_alike (Stream.alike_ofSource h) hfresh strict
  generalize parse? (.ofSource source) {} strict = p, parse? (.ofSource source') {} strict = p'
    at hparse ⊢
  cases hparse with
  | none => exact .none
  | some hp =>
    obtain ⟨htree, hstate⟩ := hp
    refine .some ⟨htree, hstate.reports, hstate.errorCount, hstate.keys, fun fuel m => ?_⟩
    exact sameEnd_run htree fuel ⟨rfl, hstate.table⟩

/-- Two spellings of a text with a comment over two lines, a loop with a division by zero, an
abandoned statement, an error token, and no end. -/
theorem parse?_sameProgram_spellings :
    (Stream.ofSource
        "BEGIN Sum := 2.5; WHILE SUM > 1 DO sum := Sum / N; X := ; WRITE('Ab'?)").TokensAlike
      (.ofSource
        "begin sum:=2.5; \x7bof\nall\x7d while sum>1 do SUM := sum/n;\nx:=; write('Ab' ?)") ∧
    ∃ p p',
      parse? (.ofSource "BEGIN Sum := 2.5; WHILE SUM > 1 DO sum := Sum / N; X := ; WRITE('Ab'?)")
        {} true = some p ∧
      parse? (.ofSource
        "begin sum:=2.5; \x7bof\nall\x7d while sum>1 do SUM := sum/n;\nx:=; write('Ab' ?)")
        {} true = some p' ∧
      SameProgram p p' := by
  have htokens : (Stream.ofSource
        "BEGIN Sum := 2.5; WHILE SUM > 1 DO sum := Sum / N; X := ; WRITE('Ab'?)").TokensAlike
      (.ofSource
        "begin sum:=2.5; \x7bof\nall\x7d while sum>1 do SUM := sum/n;\nx:=; write('Ab' ?)") :=
    Stream.tokensAlike_of_isAlike (by decide +kernel)
  have hended : (Stream.ofSource
      "BEGIN Sum := 2.5; WHILE SUM > 1 DO sum := Sum / N; X := ; WRITE('Ab'?)").isEnded = true := by
    decide +kernel
  obtain ⟨line, hline⟩ := Stream.exists_of_isEnded hended
  obtain ⟨hsome, hrel⟩ := parse?_sameProgram true htokens
  obtain ⟨p, hp⟩ := Option.isSome_iff_exists.1 (hsome line hline)
  rw [hp] at hrel
  generalize parse? _ {} true = parsed at hrel ⊢
  cases hrel with
  | some h => exact ⟨htokens, p, _, hp, rfl, h⟩

end Execution

end MiniPascal
