import Mathlib.Data.List.Nodup
import MiniPascal.Proofs.Session.Trace
import MiniPascal.Proofs.Text.Letters

/-!
# The table of a session

A session works on one table, whatever is parsed, loaded and run in it, and whatever fails. Its
steps are of two sorts. Parsing and loading only enter names, up to the point where they fail.
Running and setting only change values. So the table grows at its end and nowhere else.

**The table of a session is lawful** (`Session.table_invariant`). After any steps no key is in the
table twice, every key is the name of its variable in small letters, and a name in any letter case
finds the one variable with its key. Every further step keeps the variables in their order.
-/

namespace MiniPascal

/-! ## Letter case -/

/-- Texts that differ only in the case of the letters A to Z. -/
def Text.SameLetters (s t : Text) : Prop := s.toList.map lowerPoint = t.toList.map lowerPoint

instance (s t : Text) : Decidable (s.SameLetters t) :=
  inferInstanceAs (Decidable (s.toList.map Text.lowerPoint = t.toList.map Text.lowerPoint))

theorem Text.SameLetters.lower_eq {s t : Text} (h : s.SameLetters t) : s.lower = t.lower := by
  unfold Text.lower
  rw [← lowerFrom_map, ← lowerFrom_map [] t.toList, h]

namespace Table

variable {t u : Table}

/-! ## Lawful tables -/

/-- The keys of the variables with their names, in the order of entry. -/
def entries (t : Table) : List (Text × Text) := t.cells.map fun c => (c.key, c.name)

/-- No key is there twice, and each is the name of its variable in small letters. -/
structure Lawful (t : Table) : Prop where
  distinct : (t.cells.map (·.key)).Nodup
  keyed : t.Keyed

theorem map_fst_entries (t : Table) : t.entries.map (·.1) = t.cells.map (·.key) := by
  simp [entries, Function.comp_def]

/-- Being lawful is a matter of keys and names. -/
theorem lawful_iff_entries :
    t.Lawful ↔ (t.entries.map (·.1)).Nodup ∧ ∀ e ∈ t.entries, e.1 = keyOf e.2 := by
  rw [map_fst_entries]
  constructor
  · rintro ⟨hd, hk⟩
    refine ⟨hd, fun e he => ?_⟩
    obtain ⟨c, hc, rfl⟩ := List.mem_map.1 he
    exact hk c hc
  · rintro ⟨hd, hk⟩
    exact ⟨hd, fun c hc => hk (c.key, c.name) (List.mem_map.2 ⟨c, hc, rfl⟩)⟩

theorem Lawful.of_entries_eq (h : t.Lawful) (he : u.entries = t.entries) : u.Lawful := by
  rw [lawful_iff_entries] at h ⊢
  rwa [he]

theorem lawful_empty : Lawful {} := ⟨List.nodup_nil, keyed_empty⟩

theorem contains_eq_false_iff {name : Text} :
    t.contains name = false ↔ keyOf name ∉ t.cells.map (·.key) := by
  simp [contains, find?]

/-- A name that is entered has a key of its own. -/
theorem Lawful.enter (h : t.Lawful) (name : Text) : (t.enter name).Lawful := by
  refine ⟨?_, h.keyed.enter name⟩
  cases hn : t.contains name with
  | true => rw [enter_of_contains hn]; exact h.distinct
  | false =>
    rw [cells_enter hn, List.map_append, List.map_singleton]
    refine List.nodup_append.2 ⟨h.distinct, List.nodup_singleton _, ?_⟩
    rintro k hk k' hk' rfl
    rw [List.mem_singleton.1 hk'] at hk
    exact contains_eq_false_iff.1 hn hk

theorem Lawful.enterAll (h : t.Lawful) (names : List Text) : (t.enterAll names).Lawful := by
  induction names generalizing t with
  | nil => exact h
  | cons name names ih => exact ih (h.enter name)

/-- A name finds the one variable with its key. -/
theorem Lawful.find?_eq_some_iff (h : t.Lawful) {name : Text} {c : Cell} :
    t.find? name = some c ↔ c ∈ t.cells ∧ c.key = keyOf name := by
  constructor
  · intro hf
    exact ⟨List.mem_of_find?_eq_some hf, key_of_find? hf⟩
  · rintro ⟨hc, hk⟩
    obtain ⟨d, hd⟩ : ∃ d, t.find? name = some d :=
      Option.isSome_iff_exists.1 (List.find?_isSome.2 ⟨c, hc, by simp [hk]⟩)
    have hmem : d ∈ t.cells := List.mem_of_find?_eq_some hd
    have hkey : d.key = c.key := (key_of_find? hd).trans hk.symm
    rw [hd, List.inj_on_of_nodup_map h.distinct hmem hc hkey]

theorem find?_congr (t : Table) {name other : Text} (h : name.SameLetters other) :
    t.find? name = t.find? other := by
  unfold find? keyOf
  rw [h.lower_eq]

/-! ## Tables that grow -/

/-- The table `u` has the variables of `t` with their values, and after them new ones only. -/
def Entered (t u : Table) : Prop :=
  ∃ added, u.cells = t.cells ++ added ∧ ∀ c ∈ added, c.value = .real 0.0

theorem entered_refl (t : Table) : t.Entered t := ⟨[], by simp, by simp⟩

theorem Entered.enter (h : t.Entered u) (name : Text) : t.Entered (u.enter name) := by
  obtain ⟨added, hcells, hzero⟩ := h
  cases hn : u.contains name with
  | true =>
    rw [enter_of_contains hn]
    exact ⟨added, hcells, hzero⟩
  | false =>
    refine ⟨added ++ [{ key := keyOf name, name, value := .real 0.0 }], ?_, ?_⟩
    · rw [cells_enter hn, hcells, List.append_assoc]
    · intro c hc
      obtain hc | hc := List.mem_append.1 hc
      · exact hzero c hc
      · rw [List.mem_singleton.1 hc]

theorem Entered.enterAll (h : t.Entered u) (names : List Text) : t.Entered (u.enterAll names) := by
  induction names generalizing u with
  | nil => exact h
  | cons name names ih => exact ih (h.enter name)

theorem Entered.entries (h : t.Entered u) : t.entries <+: u.entries := by
  obtain ⟨added, hcells, -⟩ := h
  unfold Table.entries
  rw [hcells, List.map_append]
  exact List.prefix_append _ _

@[simp] theorem entries_set (t : Table) (name : Text) (v : Value) :
    (t.set name v).entries = t.entries := by
  simp only [entries, set, List.map_map]
  refine List.map_congr_left fun c _ => ?_
  simp only [Function.comp]
  split <;> rfl

/-! ## What is entered -/

/-- The table `u` comes from `t` by entering names. -/
def FromNames (t u : Table) : Prop := ∃ names, u = t.enterAll names

theorem fromNames_refl (t : Table) : t.FromNames t := ⟨[], rfl⟩

theorem FromNames.enter (h : t.FromNames u) (name : Text) : t.FromNames (u.enter name) := by
  obtain ⟨names, rfl⟩ := h
  exact ⟨names ++ [name], by simp⟩

end Table

/-! ## Loading -/

namespace Node

variable {α β : Type}

/-- The table that loading leaves, whether it fails or not. -/
def tableOf : EStateM.Result LoadFault Table α → Table
  | .ok _ t => t
  | .error _ t => t

/-- Loading only enters names. -/
def Enters (p : Load α) : Prop := ∀ table : Table, table.FromNames (tableOf (p table))

theorem Enters.pure (a : α) : Enters (pure a : Load α) := fun table => table.fromNames_refl

theorem Enters.throw (fault : LoadFault) : Enters (throw fault : Load α) :=
  fun table => table.fromNames_refl

theorem Enters.bind {p : Load α} {f : α → Load β} (hp : Enters p) (hf : ∀ a, Enters (f a)) :
    Enters (p >>= f) := by
  intro table
  have h := hp table
  show table.FromNames (tableOf (EStateM.bind p f table))
  unfold EStateM.bind
  cases he : p table with
  | ok a u =>
    rw [he] at h
    obtain ⟨names, hu⟩ := h
    obtain ⟨more, hm⟩ := hf a u
    refine ⟨names ++ more, ?_⟩
    rw [Table.enterAll_append]
    exact hu ▸ hm
  | error fault u =>
    rw [he] at h
    exact h

theorem enters_enterName (v : Value) : Enters (enterName v) := by
  cases v with
  | text name => exact fun table => table.fromNames_refl.enter name
  | _ => exact .throw _

theorem enters_enterNames (kind : Kind) (text : Value) : Enters (enterNames kind text) := by
  cases kind with
  | var => exact enters_enterName text
  | program =>
    show Enters (if text.isPresent then enterName text else Pure.pure ())
    split
    · exact enters_enterName text
    · exact .pure ()
  | _ => exact .pure ()

theorem enters_load_object {fields : List (Text × Value)} (h : Enters (loadChildren fields)) :
    Enters (load (.object fields)) := by
  rw [load]
  split
  · exact .throw _
  · exact (enters_enterNames _ _).bind fun _ => h.bind fun _ => .pure _

theorem enters_loadItems_cons {v : Value} {rest : List Value} (hv : Enters (load v))
    (hrest : Enters (loadItems rest)) : Enters (loadItems (v :: rest)) := by
  rw [loadItems]
  exact hv.bind fun _ => hrest.bind fun _ => .pure _

/-- **Loading only enters names**, also where it fails midway. -/
theorem enters_load (v : Value) : Enters (load v) := by
  refine load.induct (fun v => Enters (load v)) (fun fields => Enters (loadChildren fields))
    (fun v => Enters (loadSequence v)) (fun items => Enters (loadItems items))
    ?unknownKind ?node ?noObject ?list ?emptyText ?text ?emptyObject ?object ?noSequence
    ?noItems ?item ?noChildren ?children ?otherField v
  -- A value as a tree.
  case unknownKind =>
    intro fields hk
    rw [load, hk]
    exact .throw _
  case node =>
    intro fields kind _ h
    exact enters_load_object h
  case noObject =>
    intro v hv
    rw [load]
    · exact .throw _
    · exact hv
  -- A value as a sequence: a text or an object fails with its first item, if it has one.
  case list =>
    intro items h
    rw [loadSequence]
    exact h
  case emptyText =>
    intro t ht
    rw [loadSequence, ht]
    exact .pure _
  case text =>
    intro t p rest ht
    rw [loadSequence, ht]
    exact .throw _
  case emptyObject =>
    rw [loadSequence]
    exact .pure _
  case object =>
    intro name v rest
    rw [loadSequence]
    exact .throw _
  case noSequence =>
    intro v hl ht hn ho
    rw [loadSequence]
    · exact .throw _
    · exact hl
    · exact ht
    · exact hn
    · exact ho
  case noItems =>
    rw [loadItems]
    exact .pure _
  case item =>
    intro v rest hv hrest
    exact enters_loadItems_cons hv hrest
  -- The fields of an object, searched for its children.
  case noChildren =>
    rw [loadChildren]
    exact .pure _
  case children =>
    intro v rest h
    rw [loadChildren, if_pos rfl]
    exact h
  case otherField =>
    intro name v rest hne h
    rw [loadChildren, if_neg hne]
    exact h

end Node

/-! ## Steps of a session -/

/-- Running only changes values. -/
theorem Execution.keptByRuns_entries (es : List (Text × Text)) :
    KeptByRuns fun m => m.table.entries = es where
  trace _ h := h
  notes _ h := h
  line _ h := h
  output _ h := h
  set x h _ := by rw [Table.entries_set, h]

namespace Session

variable {s t : Session}

theorem table_of_tell {level : Int} {message : Text} (h : s.tell level message = .ok t) :
    t.table = s.table := by
  unfold tell at h
  split at h
  · cases he : message.encode with
    | error fault => rw [he] at h; cases h
    | ok line =>
      rw [he] at h
      obtain rfl := Except.ok.inj h
      rfl
  · obtain rfl := Except.ok.inj h
    rfl

theorem table_finish (s : Session) (n : Node) (m : Execution.Machine)
    (result : Except Failure Unit) : (s.finish n m result).1.table = m.table := by
  unfold finish
  dsimp only
  split
  · next ht => exact table_of_tell ht
  · rfl

/-- A run leaves the names in the table as they are, and also one that does not start. -/
theorem entries_run (s : Session) (fuel : Nat) (n : Node) :
    (s.run fuel n).1.table.entries = s.table.entries := by
  unfold run
  split
  · rfl
  · next t ht =>
    have hstart := congrArg Table.entries (table_of_tell ht)
    have hend := (Execution.keptByRuns_entries t.table.entries).run fuel n
      (m := { table := t.table, level := if t.tracing then t.level else 0 }) rfl
    split
    · next he =>
      rw [table_finish]
      rw [he] at hend
      exact hend.trans hstart
    · next he =>
      rw [table_finish]
      rw [he] at hend
      exact hend.trans hstart
    · next he =>
      rw [table_finish]
      rw [he] at hend
      exact hend.trans hstart

/-- Parsing only enters names, also where a number cannot be read. -/
theorem fromNames_parse (s : Session) (source : String) :
    s.table.FromNames (s.parse source).1.table := by
  obtain ⟨t, ht, hdoes⟩ := does_parse s source
  rw [ht, hdoes.table]
  unfold Effect.ofParse
  have hkept : ∀ {first state : Parsing.State}, Parsing.Reaches first state →
      first.table = s.table → s.table.FromNames state.table :=
    fun hr hf => hr.table_induct (P := s.table.FromNames) (fun name h => h.enter name)
      (hf ▸ s.table.fromNames_refl)
  cases hs : Parsing.State.start (.ofSource source) s.table s.strict with
  | error fault => exact s.table.fromNames_refl
  | ok first =>
    dsimp only
    cases hp : Parsing.program first with
    | ok n state =>
      exact hkept ((Parsing.meets_program first).of_ok hp).1 (Parsing.table_start hs)
    | error stop state =>
      exact hkept ((Parsing.meets_program first).of_error hp).1 (Parsing.table_start hs)

theorem fromNames_load (s : Session) (json : String) :
    s.table.FromNames (s.load json).1.table := by
  unfold load
  split
  · exact s.table.fromNames_refl
  · next v hv =>
    have h := Node.enters_load v s.table
    cases he : Node.load v s.table with
    | ok n table => rw [he] at h; exact h
    | error fault table => rw [he] at h; exact h

/-- What can be done in a session. -/
inductive Step where
  | parse (source : String)
  | load (json : String)
  /-- A tree is loaded from a value. -/
  | build (v : Value)
  | run (fuel : Nat) (program : Node)
  | enter (name : Text)
  | set (name : Text) (v : Value)

/-- The session after a step, whether that fails or not. -/
def Step.apply (s : Session) : Step → Session
  | .parse source => (s.parse source).1
  | .load json => (s.load json).1
  | .build v => { s with table := Node.tableOf (Node.load v s.table) }
  | .run fuel program => (s.run fuel program).1
  | .enter name => { s with table := s.table.enter name }
  | .set name v => { s with table := s.table.set name v }

/-- Whether a step works on the values of variables, and not on their names. -/
def Step.changesValues : Step → Bool
  | .run _ _ | .set _ _ => true
  | .parse _ | .load _ | .build _ | .enter _ => false

/-- A step changes values only, or enters names only. -/
theorem Step.table_apply (s : Session) (step : Step) :
    if step.changesValues then (step.apply s).table.entries = s.table.entries
    else s.table.FromNames (step.apply s).table := by
  cases step with
  | parse source => exact fromNames_parse s source
  | load json => exact fromNames_load s json
  | build v => exact Node.enters_load v s.table
  | run fuel program => exact entries_run s fuel program
  | enter name => exact s.table.fromNames_refl.enter name
  | set name v => exact s.table.entries_set name v

/-- A step keeps a table lawful. -/
theorem Step.lawful_apply (h : s.table.Lawful) (step : Step) : (step.apply s).table.Lawful := by
  have hstep := step.table_apply s
  split at hstep
  · exact h.of_entries_eq hstep
  · obtain ⟨names, hnames⟩ := hstep
    rw [hnames]
    exact h.enterAll names

/-- The session after steps. -/
def after (s : Session) (steps : List Step) : Session := steps.foldl Step.apply s

/-- Steps keep a table lawful. -/
theorem lawful_after (h : s.table.Lawful) (steps : List Step) : (s.after steps).table.Lawful := by
  induction steps generalizing s with
  | nil => exact h
  | cons step steps ih => exact ih (step.lawful_apply h)

/-- What a step does to the table. The variables stay, in their order and with their names, and new
ones come after them. A step that does not work on values changes none, and new variables are
zero. One that does adds no variables and takes none away. -/
def Step.Keeps (step : Step) (t u : Table) : Prop :=
  t.entries <+: u.entries ∧ if step.changesValues then u.entries = t.entries else t.Entered u

theorem Step.keeps_apply (s : Session) (step : Step) :
    step.Keeps s.table (step.apply s).table := by
  have hstep := step.table_apply s
  unfold Step.Keeps
  split
  · next hv =>
    rw [if_pos hv] at hstep
    exact ⟨hstep ▸ List.prefix_refl _, hstep⟩
  · next hv =>
    rw [if_neg hv] at hstep
    obtain ⟨names, hnames⟩ := hstep
    have hentered : s.table.Entered (step.apply s).table :=
      hnames ▸ s.table.entered_refl.enterAll names
    exact ⟨hentered.entries, hentered⟩

/-- **The table of a session is lawful.** After any steps of a new session, whether they failed or
not, keys are distinct and each is the name of its variable in small letters. A name finds exactly
the variable with its key, and in any letter case the same one. Whatever step comes next keeps the
variables. -/
theorem table_invariant (level : Int) (strict : Bool) (steps : List Step) :
    let s := (start level strict).after steps
    s.table.Lawful ∧
      (∀ name c, s.table.find? name = some c ↔ c ∈ s.table.cells ∧ c.key = Table.keyOf name) ∧
      (∀ name other : Text, name.SameLetters other → s.table.find? name = s.table.find? other) ∧
      ∀ step : Step, step.Keeps s.table (step.apply s).table := by
  intro s
  have hlawful : s.table.Lawful := lawful_after Table.lawful_empty steps
  exact ⟨hlawful, fun _ _ => hlawful.find?_eq_some_iff, fun _ _ => s.table.find?_congr,
    fun step => step.keeps_apply s⟩

/-- A program is parsed, and a tree whose children are no sequence is refused after its name was
entered. -/
theorem table_invariant_refused :
    let steps := [Step.parse "PROGRAM p; BEGIN Alpha := x END.",
      .build (.object [("kind", .text "PROGRAM"), ("text", .text "Q"), ("children", .int 1)])]
    let s := (start 0 true).after steps
    s.table.names = ["p", "Alpha", "x", "Q"] ∧
      s.table.find? "ALPHA" = s.table.find? "alpha" ∧
      (Step.run 9 default).Keeps s.table ((Step.run 9 default).apply s).table := by
  intro steps s
  obtain ⟨-, -, hletters, hkeeps⟩ := table_invariant 0 true steps
  exact ⟨by decide +kernel, hletters _ _ (by decide +kernel), hkeeps _⟩

end Session

end MiniPascal
