import MiniPascal.CommandLine.Path

/-!
# Reading and writing paths

**A path is read as it was written** (`Path.ofText_text`), if its root is one and its names can be
told apart in the text: none is empty, has a slash in it or stands for the current directory. The
paths of texts are of this form (`Path.isProper_ofText`), also with an ending
(`Path.IsProper.addEnding`).
-/

namespace MiniPascal.CommandLine.Path

/-! ## Splitting at slashes -/

theorem splitSlashes_eq_splitOn (cs : List Char) : splitSlashes cs = cs.splitOn '/' := by
  induction cs with
  | nil => rfl
  | cons c cs ih =>
    rw [splitSlashes, ih, List.splitOn_cons_eq_if_modifyHead]
    by_cases hc : c = '/'
    · simp [hc]
    · simp only [hc, if_false, beq_iff_eq]
      cases hsplit : cs.splitOn '/' with
      | nil => exact absurd hsplit (List.splitOn_ne_nil '/' cs)
      | cons first others => rfl

/-- No part of a split text has a slash in it. -/
theorem not_mem_splitSlashes {cs part : List Char} (h : part ∈ splitSlashes cs) : '/' ∉ part := by
  induction cs generalizing part with
  | nil =>
    rw [splitSlashes, List.mem_singleton] at h
    simp [h]
  | cons c cs ih =>
    rw [splitSlashes] at h
    split at h
    · rcases List.mem_cons.1 h with rfl | h
      · simp
      · exact ih h
    · next hc =>
      split at h
      · rw [List.mem_singleton] at h
        simp [h, Ne.symm hc]
      · next first others hsplit =>
        rw [hsplit] at ih
        rcases List.mem_cons.1 h with rfl | h
        · simp [Ne.symm hc, ih (List.mem_cons_self ..)]
        · exact ih (List.mem_cons_of_mem _ h)

/-! ## Paths that can be written -/

/-- The text can be a name on a path. -/
structure IsName (name : String) : Prop where
  nonempty : name ≠ ""
  notCurrent : name ≠ "."
  slashless : '/' ∉ name.toList

/-- The path has one of the three roots and can be told from its text. -/
structure IsProper (p : Path) : Prop where
  root : p.root = "" ∨ p.root = "/" ∨ p.root = "//"
  names : ∀ name ∈ p.names, IsName name

theorem rootOf_cases (s : String) : rootOf s = "" ∨ rootOf s = "/" ∨ rootOf s = "//" := by
  unfold rootOf
  split
  · exact .inl rfl
  · exact .inr (.inr rfl)
  · exact .inr (.inl rfl)

theorem isProper_ofText (s : String) : (ofText s).IsProper := by
  refine ⟨rootOf_cases s, fun name h => ?_⟩
  obtain ⟨hmem, hname⟩ := List.mem_filter.1 h
  obtain ⟨part, hpart, rfl⟩ := List.mem_map.1 hmem
  obtain ⟨hempty, hdot⟩ : String.ofList part ≠ "" ∧ String.ofList part ≠ "." := by
    simpa using hname
  refine ⟨hempty, hdot, ?_⟩
  rw [String.toList_ofList]
  exact not_mem_splitSlashes hpart

/-- An ending without a slash, of two characters or more, keeps a path proper. -/
theorem IsProper.addEnding {p : Path} (h : p.IsProper) {ending : String}
    (hslash : '/' ∉ ending.toList) (hlong : 2 ≤ ending.length) :
    (p.addEnding ending).IsProper := by
  rw [Path.addEnding]
  split
  · exact h
  · next last hlast =>
    refine ⟨h.root, fun name hname => ?_⟩
    rcases List.mem_append.1 hname with hname | hname
    · exact h.names name ((List.dropLast_sublist _).mem hname)
    · obtain rfl := List.mem_singleton.1 hname
      have hlength : 2 ≤ (last ++ ending).length := by
        rw [String.length_append]
        omega
      refine ⟨?_, ?_, ?_⟩
      · intro he
        rw [he] at hlength
        exact absurd hlength (by decide)
      · intro he
        rw [he] at hlength
        exact absurd hlength (by decide)
      · rw [String.toList_append, List.mem_append]
        exact not_or.2 ⟨(h.names last (List.mem_of_getLast? hlast)).slashless, hslash⟩

/-! ## Reading what was written -/

/-- The names of a path, joined by slashes. -/
def joined (names : List String) : List Char := ['/'].intercalate (names.map String.toList)

/-- Joined names start with something else than a slash. -/
theorem joined_eq_cons {name : String} (h : IsName name) (names : List String) :
    ∃ c rest, joined (name :: names) = c :: rest ∧ c ≠ '/' := by
  obtain ⟨c, cs, hcs⟩ : ∃ c cs, name.toList = c :: cs :=
    List.exists_cons_of_ne_nil (mt String.toList_eq_nil_iff.1 h.nonempty)
  have hc : c ≠ '/' := by
    rintro rfl
    exact h.slashless (by simp [hcs])
  cases names with
  | nil => exact ⟨c, cs, by simp [joined, hcs], hc⟩
  | cons next names => exact ⟨c, cs ++ '/' :: joined (next :: names), by simp [joined, hcs], hc⟩

theorem splitSlashes_joined {names : List String} (hne : names ≠ [])
    (h : ∀ name ∈ names, IsName name) :
    splitSlashes (joined names) = names.map String.toList := by
  rw [splitSlashes_eq_splitOn]
  refine List.splitOn_intercalate '/' ?_ (by simpa using hne)
  intro part hpart
  obtain ⟨name, hname, rfl⟩ := List.mem_map.1 hpart
  exact (h name hname).slashless

/-- Names are kept when a text is read as a path. -/
theorem filter_names {names : List String} (h : ∀ name ∈ names, IsName name) :
    ((names.map String.toList).map String.ofList).filter (fun n => n != "" && n != ".") =
      names := by
  have hsame : (names.map String.toList).map String.ofList = names := by simp
  rw [hsame, List.filter_eq_self]
  intro name hname
  simp [(h name hname).nonempty, (h name hname).notCurrent]

theorem toList_text {p : Path} (hne : p.names ≠ []) (h : p.IsProper) :
    p.text.toList = p.root.toList ++ joined p.names := by
  have hchars : (p.root ++ "/".intercalate p.names).toList = p.root.toList ++ joined p.names := by
    rw [String.toList_append, String.toList_intercalate]
    rfl
  have hfull : p.root ++ "/".intercalate p.names ≠ "" := by
    obtain ⟨name, names, hnames⟩ := List.exists_cons_of_ne_nil hne
    obtain ⟨c, rest, hjoined, -⟩ := joined_eq_cons (h.names name (by simp [hnames])) names
    intro he
    rw [he, hnames, hjoined] at hchars
    simp at hchars
  simp only [text, if_neg hfull, hchars]

/-- The names in a text of a path. -/
theorem names_ofText (s : String) :
    (ofText s).names =
      ((splitSlashes s.toList).map String.ofList).filter fun n => n != "" && n != "." := rfl

/-- Slashes in front add no names. -/
theorem filter_slashes (k : Nat) (cs : List Char) :
    ((splitSlashes (List.replicate k '/' ++ cs)).map String.ofList).filter
        (fun n => n != "" && n != ".") =
      ((splitSlashes cs).map String.ofList).filter fun n => n != "" && n != "." := by
  induction k with
  | zero => rfl
  | succ k ih =>
    rw [List.replicate_succ, List.cons_append, splitSlashes, if_pos rfl, List.map_cons,
      List.filter_cons_of_neg (by decide), ih]

/-- A root in front of names is found, and adds no name. -/
theorem ofText_of_toList {s : String} {p : Path} (h : p.IsProper) (hne : p.names ≠ [])
    (hs : s.toList = p.root.toList ++ joined p.names) : ofText s = p := by
  obtain ⟨root, names⟩ := p
  have hroot : rootOf s = root := by
    obtain ⟨name, others, rfl⟩ := List.exists_cons_of_ne_nil hne
    obtain ⟨c, rest, hjoined, hc⟩ := joined_eq_cons (h.names name (by simp)) others
    obtain rfl | rfl | rfl : root = "" ∨ root = "/" ∨ root = "//" := h.root
    all_goals simp [rootOf, hs, hjoined, hc]
  have hnames : (ofText s).names = names := by
    obtain ⟨k, hk⟩ : ∃ k, root.toList = List.replicate k '/' := by
      obtain rfl | rfl | rfl : root = "" ∨ root = "/" ∨ root = "//" := h.root
      · exact ⟨0, rfl⟩
      · exact ⟨1, rfl⟩
      · exact ⟨2, rfl⟩
    rw [names_ofText, hs, hk, filter_slashes, splitSlashes_joined hne h.names,
      filter_names h.names]
  rw [← hroot, ← hnames]
  rfl

/-- **A path is read as it was written.** -/
theorem ofText_text {p : Path} (h : p.IsProper) : ofText p.text = p := by
  obtain ⟨root, names⟩ := p
  by_cases hne : names = []
  · subst hne
    obtain rfl | rfl | rfl : root = "" ∨ root = "/" ∨ root = "//" := h.root
    all_goals decide +kernel
  · exact ofText_of_toList h hne (toList_text hne h)

end MiniPascal.CommandLine.Path
