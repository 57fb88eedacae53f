import MiniPascal.CommandLine.Files

/-!
# Command lines on a directory

A file that was written can be read at the same path (`Files.read_of_write`): no directory
disappears when a file is written, so the path still leads to the same place.

A command line that names one file asks for one command (`IsFileName.command_program`,
`IsFileName.command_emitTree`, `IsFileName.command_tree`), where the name is not taken for an
option. Without a trace, the command is given the bytes of that file and its files are written
(`Files.run_of_respond`).
-/

namespace MiniPascal.CommandLine

namespace Files

/-! ## Writing and reading -/

/-- A file can be written at the path: it leads to a place that is no directory. -/
def Takes (fs : Files) (p : Path) : Prop :=
  ∃ place, fs.locate p = .ok (.inside place) ∧ fs.isDirectory place = false

theorem write_of_takes {fs : Files} {p : Path} (h : fs.Takes p) (text : String) :
    ∃ fs', fs.write p text = .ok fs' := by
  obtain ⟨place, hplace, hfree⟩ := h
  refine ⟨fs.put place text.toUTF8.toList, ?_⟩
  rw [write, hplace]
  simp only [hfree]
  rfl

/-- The entry with the given bytes, if it is that of the file at a place. -/
def rewritten (place : List String) (bytes : List UInt8) (e : List String × List UInt8) :
    List String × List UInt8 :=
  if e.1 == place then (e.1, bytes) else (e.1, e.2)

theorem put_eq (fs : Files) (place : List String) (bytes : List UInt8) :
    fs.put place bytes =
      if (fs.get? place).isSome then { entries := fs.entries.map (rewritten place bytes) }
      else { entries := fs.entries ++ [(place, bytes)] } := rfl

theorem lookup_rewritten {entries : List (List String × List UInt8)} {place : List String}
    (h : (entries.lookup place).isSome = true) (bytes : List UInt8) :
    (entries.map (rewritten place bytes)).lookup place = some bytes := by
  induction entries with
  | nil => cases h
  | cons e entries ih =>
    obtain ⟨p, b⟩ := e
    by_cases hp : p = place
    · simp [rewritten, hp]
    · have hne : (place == p) = false := beq_eq_false_iff_ne.2 (Ne.symm hp)
      have hentry : rewritten place bytes (p, b) = (p, b) := by simp [rewritten, hp]
      rw [List.lookup_cons, hne] at h
      rw [List.map_cons, hentry, List.lookup_cons, hne]
      exact ih h

theorem get?_put (fs : Files) (place : List String) (bytes : List UInt8) :
    (fs.put place bytes).get? place = some bytes := by
  rw [put_eq]
  split
  · next h => exact lookup_rewritten h bytes
  · next h =>
    have hnone : fs.entries.lookup place = none := Option.not_isSome_iff_eq_none.1 h
    simp [get?, List.lookup_append, hnone]

/-- The places of the files stay when one is put. -/
theorem places_put (fs : Files) (place : List String) (bytes : List UInt8) {p : List String}
    (h : p ∈ fs.entries.map (·.1)) : p ∈ (fs.put place bytes).entries.map (·.1) := by
  have hfirst (e : List String × List UInt8) : (rewritten place bytes e).1 = e.1 := by
    rw [rewritten]
    split <;> rfl
  rw [put_eq]
  split
  · rw [List.map_map]
    simpa [hfirst] using h
  · simp only [List.map_append, List.mem_append]
    exact .inl h

theorem isDirectory_iff (fs : Files) (place : List String) :
    fs.isDirectory place = true ↔
      place = [] ∨ ∃ p ∈ fs.entries.map (·.1), place.isPrefixOf p = true ∧ place ≠ p := by
  simp [isDirectory]

/-- No directory disappears when a file is put. -/
theorem isDirectory_put {fs : Files} {d : List String} (h : fs.isDirectory d = true)
    (place : List String) (bytes : List UInt8) : (fs.put place bytes).isDirectory d = true := by
  rw [isDirectory_iff] at h ⊢
  obtain hd | ⟨p, hp, hbelow⟩ := h
  · exact .inl hd
  · exact .inr ⟨p, fs.places_put place bytes hp, hbelow⟩

/-- With more directories, a path that leads somewhere leads to the same spot. -/
theorem follow_mono {fs fs' : Files} (h : ∀ d, fs.isDirectory d = true → fs'.isDirectory d = true)
    {spot end' : Spot} {names : List String} (hf : fs.follow spot names = .ok end') :
    fs'.follow spot names = .ok end' := by
  induction names generalizing spot with
  | nil => cases spot <;> exact hf
  | cons name rest ih =>
    cases spot with
    | outside =>
      rw [follow] at hf ⊢
      split at hf
      · next hup => rw [if_pos hup, ih hf]
      · split at hf <;> cases hf
    | inside place =>
      rw [follow] at hf ⊢
      by_cases hd : fs.isDirectory place = true
      · rw [hd] at hf
        rw [h place hd]
        simp only [Bool.not_true, Bool.false_eq_true, if_false] at hf ⊢
        split at hf
        · next hup => rw [if_pos hup, ih hf]
        · next hup =>
          rw [if_neg hup]
          split at hf
          · cases hf
          · next hshort => rw [if_neg hshort, ih hf]
      · simp [hd] at hf

theorem locate_mono {fs fs' : Files} (h : ∀ d, fs.isDirectory d = true → fs'.isDirectory d = true)
    {p : Path} {spot : Spot} (hl : fs.locate p = .ok spot) : fs'.locate p = .ok spot := by
  rw [locate] at hl ⊢
  split at hl
  · cases hl
  next hzero =>
  split at hl
  · cases hl
  next hlong =>
  rw [if_neg hzero, if_neg hlong]
  exact follow_mono h hl

/-- **What was written can be read.** -/
theorem read_of_write {fs fs' : Files} {p : Path} {text : String}
    (h : fs.write p text = .ok fs') : fs'.read p = .ok (some text.toUTF8.toList) := by
  rw [write] at h
  split at h
  · next place hplace =>
    split at h
    · cases h
    · cases h
      have hsame : (fs.put place text.toUTF8.toList).locate p = .ok (.inside place) :=
        locate_mono (fun d hd => isDirectory_put hd place _) hplace
      rw [read, hsame]
      exact congrArg Except.ok (get?_put fs place _)
  all_goals cases h

end Files

/-! ## Command lines that name a file -/

/-- The text names a file: it is not empty, and not taken for an option. -/
structure IsFileName (s : String) : Prop where
  nonempty : s ≠ ""
  plain : Argument.ofText s = .ok (.plain s)

/-- A text that starts with something else than a dash names a file. -/
theorem isFileName_of_head {s : String} {c : Char} (h : s.toList.head? = some c) (hc : c ≠ '-') :
    IsFileName s := by
  refine ⟨?_, ?_⟩
  · rintro rfl
    cases h
  · unfold Argument.ofText
    split
    · next second rest hs =>
      rw [hs] at h
      exact absurd (Option.some.inj h).symm hc
    · rfl

/-- A long option that is written in full. -/
theorem Argument.ofText_of_spelling {s : String} {flag : Flag} {second : Char} {rest : List Char}
    (hs : s.toList = '-' :: second :: rest) (hflag : Flag.ofSpelling? s = some flag)
    (hlong : "--".isPrefixOf s = true) : Argument.ofText s = .ok (.long flag none) := by
  unfold Argument.ofText
  rw [hs]
  simp only [hflag, Argument.known, hlong, if_true]

theorem Command.ofTexts_of_settings {texts : List String} {s : Settings} {c : Command}
    (hs : Settings.ofTexts texts = .ok s) (hc : s.command? = some c) :
    Command.ofTexts texts = .ok c := by
  rw [Command.ofTexts, hs]
  dsimp only
  rw [hc]

namespace IsFileName

variable {f : String}

theorem ne_mark (h : IsFileName f) : f ≠ "--" := by
  rintro rfl
  have hmark : (Argument.ofText "--").isOk = false := by decide +kernel
  rw [h.plain] at hmark
  cases hmark

theorem present (h : IsFileName f) : present? (some f) = some f := by
  simp [present?, Option.filter, h.nonempty]

theorem ofTexts (h : IsFileName f) : Argument.ofTexts [f] = .ok [.plain f] := by
  rw [Argument.ofTexts, if_neg h.ne_mark, h.plain]
  rfl

/-- An option that takes a file, with this file. -/
theorem settings (h : IsFileName f) {option : String} {flag : Flag} {s : Settings}
    (hoption : option ≠ "--") (hflag : Argument.ofText option = .ok (.long flag none))
    (htakes : flag.takesFile = true) (hs : ({} : Settings).withFile flag f = .ok s)
    (hleft : s.leftOver = []) : Settings.ofTexts [option, f] = .ok s := by
  have harguments : Argument.ofTexts [option, f] = .ok [.long flag none, .plain f] := by
    rw [Argument.ofTexts, if_neg hoption, hflag, h.ofTexts]
    rfl
  have hcollect : collect {} [.long flag none, .plain f] = .ok s := by
    rw [collect, if_pos htakes, hs]
    rfl
  rw [Settings.ofTexts, harguments]
  show (collect {} [.long flag none, .plain f] >>= _) = _
  rw [hcollect]
  show (if s.leftOver.isEmpty then _ else _) = _
  rw [hleft]
  rfl

/-- A name alone is that of a program to run. -/
theorem command_program (h : IsFileName f) :
    Command.ofTexts [f] = .ok ⟨.runProgram, .ofText f, 0, false⟩ := by
  have hs : Settings.ofTexts [f] = .ok { program := some f } := by
    rw [Settings.ofTexts, h.ofTexts]
    rfl
  refine Command.ofTexts_of_settings hs ?_
  simp only [Settings.command?, h.present]
  rfl

theorem command_emitTree (h : IsFileName f) :
    Command.ofTexts ["--emit-ast", f] = .ok ⟨.emitTree, .ofText f, 0, false⟩ := by
  have hs : ({} : Settings).withFile .emitTree f = .ok { emitTree := some f } := by
    simp [Settings.withFile, h.ne_mark]
  have hflag := Argument.ofText_of_spelling (s := "--emit-ast") rfl rfl (by decide +kernel)
  refine Command.ofTexts_of_settings (h.settings (by decide) hflag rfl hs rfl) ?_
  simp only [Settings.command?, h.present]
  rfl

theorem command_tree (h : IsFileName f) :
    Command.ofTexts ["--ast", f] = .ok ⟨.runTree, .ofText f, 0, false⟩ := by
  have hs : ({} : Settings).withFile .tree f = .ok { tree := some f } := by
    simp [Settings.withFile, h.ne_mark]
  have hflag := Argument.ofText_of_spelling (s := "--ast") rfl rfl (by decide +kernel)
  refine Command.ofTexts_of_settings (h.settings (by decide) hflag rfl hs rfl) ?_
  simp only [Settings.command?, h.present]

end IsFileName

/-! ## Commands without a trace -/

namespace Files

variable {fs fs' : Files} {c : Command} {bytes : Option (List UInt8)}

/-- **A command line without a trace.** The command is given the bytes of its file, and what it
writes is put into the directory. -/
theorem run_of_respond {texts : List String} {fuel : Nat} {r : Response}
    (hc : Command.ofTexts texts = .ok c) (hv : c.verbosity = 0)
    (hread : fs.read c.path = .ok bytes) (hr : c.respond fuel bytes = r)
    (hw : fs.writeAll r.writes = (fs', .ok ())) : fs.run fuel texts = (fs', r) := by
  have hopens : fs.refusesTrace c = false := by simp [refusesTrace, hv]
  rw [run, hc]
  dsimp only
  rw [runCommand, hread]
  dsimp only
  unfold runOn
  simp only [hopens, Bool.and_false, Bool.false_eq_true, if_false]
  rw [hr, hw]

end Files

end MiniPascal.CommandLine
