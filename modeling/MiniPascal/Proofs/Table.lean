import MiniPascal.Table

/-!
# Laws of the table

What setting and entering do to the variable of a name: setting replaces its value, entering adds it
if it is new, and neither touches any other variable.
-/

namespace MiniPascal.Table

variable {t : Table} {name other : Text}

theorem find?_set (t : Table) (name other : Text) (v : Value) :
    (t.set name v).find? other =
      (t.find? other).map fun c => if c.key == keyOf name then { c with value := v } else c := by
  simp only [find?, set, List.find?_map]
  congr 2
  funext c
  simp only [Function.comp]
  split <;> rfl

theorem key_of_find? {c : Cell} (h : t.find? name = some c) : c.key = keyOf name := by
  simpa using List.find?_some h

/-- The value of a variable after one is set. -/
theorem value_set (t : Table) (name other : Text) (v : Value) :
    ((t.set name v).find? other).map (·.value) =
      if keyOf other = keyOf name then (t.find? other).map fun _ => v
      else (t.find? other).map (·.value) := by
  rw [find?_set]
  cases hc : t.find? other with
  | none => simp
  | some c =>
    have hk := key_of_find? hc
    by_cases he : keyOf other = keyOf name <;> simp [hk, he]

@[simp] theorem contains_set (t : Table) (name other : Text) (v : Value) :
    (t.set name v).contains other = t.contains other := by
  simp [contains, find?_set]

theorem contains_congr (t : Table) (h : keyOf name = keyOf other) :
    t.contains name = t.contains other := by
  simp only [contains, find?, h]

/-! ## Entering names -/

theorem enter_of_contains (h : t.contains name = true) : t.enter name = t := by
  rw [enter, if_pos h]

theorem cells_enter (h : t.contains name = false) :
    (t.enter name).cells = t.cells ++ [{ key := keyOf name, name, value := .real 0.0 }] := by
  rw [enter, if_neg (by simp [h])]

/-- The variable of a name after one is entered, which changes none that was there. -/
theorem find?_enter_of_some {c : Cell} (h : t.find? other = some c) :
    (t.enter name).find? other = some c := by
  cases hn : t.contains name with
  | true => rwa [enter_of_contains hn]
  | false =>
    have hc : t.cells.find? (·.key == keyOf other) = some c := h
    show (t.enter name).cells.find? (·.key == keyOf other) = some c
    rw [cells_enter hn, List.find?_append, hc, Option.some_or]

theorem mem_cells_enter {c : Cell} (h : c ∈ (t.enter name).cells) :
    c ∈ t.cells ∨ c = { key := keyOf name, name, value := .real 0.0 } := by
  cases hn : t.contains name with
  | true => exact .inl (enter_of_contains hn ▸ h)
  | false => rwa [cells_enter hn, List.mem_append, List.mem_singleton] at h

theorem contains_enter_self (t : Table) (name : Text) : (t.enter name).contains name = true := by
  cases hn : t.contains name with
  | true => rwa [enter_of_contains hn]
  | false =>
    show ((t.enter name).cells.find? (·.key == keyOf name)).isSome = true
    rw [cells_enter hn]
    simp

theorem contains_enter (h : t.contains other = true) : (t.enter name).contains other = true := by
  obtain ⟨c, hc⟩ := Option.isSome_iff_exists.1 h
  rw [contains, find?_enter_of_some hc, Option.isSome_some]

/-- The table with names entered, one after the other. -/
def enterAll (t : Table) (names : List Text) : Table := names.foldl enter t

@[simp] theorem enterAll_nil (t : Table) : t.enterAll [] = t := rfl

@[simp] theorem enterAll_cons (t : Table) (name : Text) (names : List Text) :
    t.enterAll (name :: names) = (t.enter name).enterAll names := rfl

@[simp] theorem enterAll_append (t : Table) (names others : List Text) :
    t.enterAll (names ++ others) = (t.enterAll names).enterAll others :=
  List.foldl_append

theorem contains_enterAll {names : List Text} (h : t.contains other = true) :
    (t.enterAll names).contains other = true := by
  induction names generalizing t with
  | nil => exact h
  | cons name names ih => exact ih (contains_enter h)

theorem contains_enterAll_of_mem {names : List Text} (h : name ∈ names) :
    (t.enterAll names).contains name = true := by
  induction names generalizing t with
  | nil => cases h
  | cons first names ih =>
    obtain rfl | h := List.mem_cons.1 h
    · exact contains_enterAll (t := t.enter name) (contains_enter_self t name)
    · exact ih h

/-- What is in a table was there before, or has been entered. -/
theorem contains_or_of_contains_enterAll {names : List Text}
    (h : (t.enterAll names).contains other = true) :
    t.contains other = true ∨ ∃ name ∈ names, keyOf other = keyOf name := by
  induction names generalizing t with
  | nil => exact .inl h
  | cons name names ih =>
    obtain h | ⟨first, hf, hk⟩ := ih h
    · obtain ⟨c, hc⟩ := Option.isSome_iff_exists.1 h
      have hkey : c.key = keyOf other := key_of_find? hc
      obtain hmem | rfl := mem_cells_enter (List.mem_of_find?_eq_some hc)
      · exact .inl (List.find?_isSome.2 ⟨c, hmem, by simp [hkey]⟩)
      · exact .inr ⟨name, by simp, hkey.symm⟩
    · exact .inr ⟨first, by simp [hf], hk⟩

theorem contains_enter_iff :
    (t.enter name).contains other = true ↔ t.contains other = true ∨ keyOf other = keyOf name := by
  constructor
  · intro h
    have hall : (t.enterAll [name]).contains other = true := h
    obtain h | ⟨first, hf, hk⟩ := contains_or_of_contains_enterAll hall
    · exact .inl h
    · exact .inr (List.mem_singleton.1 hf ▸ hk)
  · rintro (h | h)
    · exact contains_enter h
    · rw [contains_congr _ h]
      exact contains_enter_self t name

/-! ## Places -/

theorem isSome_place? (t : Table) (name : Text) : (t.place? name).isSome = t.contains name := by
  rw [place?, List.findIdx?_isSome, contains, find?, List.isSome_find?]

theorem exists_place? (h : t.contains name = true) : ∃ i, t.place? name = some i :=
  Option.isSome_iff_exists.1 ((isSome_place? t name).trans h)

theorem place?_eq_some {i : Nat} (h : t.place? name = some i) :
    ∃ c, t.cells[i]? = some c ∧ t.find? name = some c := by
  obtain ⟨hi, hkey, hbefore⟩ := List.findIdx?_eq_some_iff_getElem.1 h
  refine ⟨t.cells[i], List.getElem?_eq_getElem hi, ?_⟩
  exact List.find?_eq_some_iff_getElem.2 ⟨hkey, i, hi, rfl, fun j hj => by simpa using hbefore j hj⟩

/-- Two names have the same place if they differ at most in letter case. -/
theorem place?_eq_iff (h : t.contains name = true) :
    t.place? name = t.place? other ↔ name.lower = other.lower := by
  constructor
  · intro he
    obtain ⟨i, hi⟩ := exists_place? h
    obtain ⟨c, hc, hname⟩ := place?_eq_some hi
    obtain ⟨d, hd, hother⟩ := place?_eq_some (he ▸ hi)
    obtain rfl : c = d := Option.some.inj (hc.symm.trans hd)
    exact (key_of_find? hname).symm.trans (key_of_find? hother)
  · intro he
    unfold place? keyOf
    rw [he]

/-- Entering a name moves no variable. -/
theorem place?_enter_of_some {i : Nat} (h : t.place? other = some i) :
    (t.enter name).place? other = some i := by
  cases hn : t.contains name with
  | true => rwa [enter_of_contains hn]
  | false =>
    show (t.enter name).cells.findIdx? (·.key == keyOf other) = some i
    rw [cells_enter hn, List.findIdx?_append]
    exact Option.or_of_isSome (o := t.place? other) (by rw [h]; rfl) |>.trans h

/-- A new name is entered at the end. -/
theorem place?_enter_self (h : t.place? name = none) :
    (t.enter name).place? name = some t.size := by
  have hn : t.contains name = false := by rw [← isSome_place?, h]; rfl
  have hcells : t.cells.findIdx? (·.key == keyOf name) = none := h
  show (t.enter name).cells.findIdx? (·.key == keyOf name) = some t.size
  rw [cells_enter hn, List.findIdx?_append, hcells]
  simp [size]

/-! ## Tables of new variables -/

/-- Every variable is kept under its name in small letters. -/
def Keyed (t : Table) : Prop := ∀ c ∈ t.cells, c.key = keyOf c.name

/-- Every variable is still new. -/
def Zeroed (t : Table) : Prop := ∀ c ∈ t.cells, c.value = .real 0.0

theorem Keyed.enter (h : t.Keyed) (name : Text) : (t.enter name).Keyed := by
  intro c hc
  obtain hc | rfl := mem_cells_enter hc
  · exact h c hc
  · rfl

theorem Zeroed.enter (h : t.Zeroed) (name : Text) : (t.enter name).Zeroed := by
  intro c hc
  obtain hc | rfl := mem_cells_enter hc
  · exact h c hc
  · rfl

theorem zeroed_empty : Zeroed {} := by simp [Zeroed]

theorem keyed_empty : Keyed {} := by simp [Keyed]

theorem Zeroed.enterAll (h : t.Zeroed) (names : List Text) : (t.enterAll names).Zeroed := by
  induction names generalizing t with
  | nil => exact h
  | cons name names ih => exact ih (h.enter name)

theorem Zeroed.value (h : t.Zeroed) (hn : t.contains name = true) :
    (t.find? name).map (·.value) = some (.real 0.0) := by
  obtain ⟨c, hc⟩ := Option.isSome_iff_exists.1 hn
  rw [hc, Option.map_some, h c (List.mem_of_find?_eq_some hc)]

/-- A variable after one is set, with its name and its key as before. -/
theorem mem_cells_set {c : Cell} {v : Value} (h : c ∈ (t.set name v).cells) :
    ∃ d ∈ t.cells, c.key = d.key ∧ c.name = d.name ∧
      (d.key ≠ keyOf name → c.value = d.value) := by
  obtain ⟨d, hd, rfl⟩ := List.mem_map.1 h
  refine ⟨d, hd, ?_⟩
  split
  · next hk => exact ⟨rfl, rfl, fun hne => absurd (beq_iff_eq.1 hk) hne⟩
  · exact ⟨rfl, rfl, fun _ => rfl⟩

theorem Keyed.set (h : t.Keyed) (name : Text) (v : Value) : (t.set name v).Keyed := by
  intro c hc
  obtain ⟨d, hd, hk, hn, -⟩ := mem_cells_set hc
  rw [hk, hn, h d hd]

@[simp] theorem names_set (t : Table) (name : Text) (v : Value) :
    (t.set name v).names = t.names := by
  simp only [names, set, List.map_map]
  refine List.map_congr_left fun c _ => ?_
  simp only [Function.comp]
  split <;> rfl

/-! ## Tables of reals -/

/-- Every variable holds a real. -/
def Reals (t : Table) : Prop := ∀ c ∈ t.cells, ∃ x : Float, c.value = .real x

theorem Zeroed.reals (h : t.Zeroed) : t.Reals := fun c hc => ⟨0.0, h c hc⟩

theorem Reals.enter (h : t.Reals) (name : Text) : (t.enter name).Reals := by
  intro c hc
  obtain hc | rfl := mem_cells_enter hc
  · exact h c hc
  · exact ⟨0.0, rfl⟩

theorem Reals.set (h : t.Reals) (name : Text) (x : Float) : (t.set name (.real x)).Reals := by
  intro c hc
  obtain ⟨d, hd, rfl⟩ := List.mem_map.1 hc
  split
  · exact ⟨x, rfl⟩
  · exact h d hd

theorem Reals.value (h : t.Reals) (hn : t.contains name = true) :
    ∃ x : Float, (t.find? name).map (·.value) = some (.real x) := by
  obtain ⟨c, hc⟩ := Option.isSome_iff_exists.1 hn
  obtain ⟨x, hx⟩ := h c (List.mem_of_find?_eq_some hc)
  exact ⟨x, by rw [hc, Option.map_some, hx]⟩

/-! ## Keys and values -/

/-- The keys of the variables and their values, in the order of entry. -/
def contents (t : Table) : List (Text × Value) := t.cells.map fun c => (c.key, c.value)

theorem value_eq_contents (t : Table) (name : Text) :
    (t.find? name).map (·.value) = (t.contents.find? (·.1 == keyOf name)).map (·.2) := by
  simp only [find?, contents, List.find?_map, Option.map_map]
  rfl

theorem contents_set (t : Table) (name : Text) (v : Value) :
    (t.set name v).contents =
      t.contents.map fun p => if p.1 == keyOf name then (p.1, v) else p := by
  simp only [contents, set, List.map_map]
  refine List.map_congr_left fun c _ => ?_
  simp only [Function.comp]
  split <;> rfl

theorem contents_enter (t : Table) (name : Text) : (t.enter name).contents =
    if t.contains name then t.contents else t.contents ++ [(keyOf name, .real 0.0)] := by
  unfold enter
  split
  · rfl
  · simp [contents]

section Congr

variable {u : Table} (h : t.contents = u.contents) (hk : keyOf name = keyOf other)

include h hk

theorem value_congr : (t.find? name).map (·.value) = (u.find? other).map (·.value) := by
  rw [value_eq_contents, value_eq_contents, h, hk]

theorem contains_congr_contents : t.contains name = u.contains other := by
  simpa [contains] using congrArg Option.isSome (value_congr h hk)

theorem contents_set_congr (v : Value) : (t.set name v).contents = (u.set other v).contents := by
  rw [contents_set, contents_set, h, hk]

theorem contents_enter_congr : (t.enter name).contents = (u.enter other).contents := by
  rw [contents_enter, contents_enter, contains_congr_contents h hk, h, hk]

end Congr

/-! ## Tables with spare variables -/

/-- A table has every variable of another one, with the same value. All others in it are new. -/
structure Covers (t u : Table) : Prop where
  value : ∀ name, u.contains name = true →
    (t.find? name).map (·.value) = (u.find? name).map (·.value)
  spare : ∀ c ∈ t.cells, u.contains c.name = false → c.value = .real 0.0

theorem Zeroed.covers {u : Table} (ht : t.Zeroed) (hu : u.Zeroed)
    (h : ∀ name, u.contains name = true → t.contains name = true) : t.Covers u where
  value name hn := by rw [ht.value (h name hn), hu.value hn]
  spare c hc _ := ht c hc

/-- Setting a variable of the smaller table in both. -/
theorem Covers.set {u : Table} (h : t.Covers u) (hk : t.Keyed) (hn : u.contains name = true)
    (v : Value) : (t.set name v).Covers (u.set name v) where
  value other ho := by
    rw [contains_set] at ho
    have hvalue := h.value other ho
    rw [value_set, value_set]
    split
    · have hconst := congrArg (Option.map fun _ => v) hvalue
      simpa [Function.comp_def] using hconst
    · exact hvalue
  spare c hc hs := by
    rw [contains_set] at hs
    obtain ⟨d, hd, -, hname, hvalue⟩ := mem_cells_set hc
    rw [hname] at hs
    -- A spare variable is not the one that is set, since the smaller table has that one.
    have hne : d.key ≠ keyOf name := by
      intro he
      rw [contains_congr u ((hk d hd).symm.trans he), hn] at hs
      cases hs
    rw [hvalue hne]
    exact h.spare d hd hs

end MiniPascal.Table
