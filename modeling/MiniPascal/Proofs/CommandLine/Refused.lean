import MiniPascal.Proofs.CommandLine.Emitted
import MiniPascal.Proofs.Tree.Loading

/-!
# Tree files that are refused

A tree file may hold any value. Whether it is run, told to be no tree or ends the command with a
failure is decided by the first defect among the parts of the value
(**`Command.respond_of_defect`**): only a part that is no node at all is told to the user. A name
that is no text, and children that are no sequence, end the command.
-/

namespace MiniPascal.CommandLine

open Value (defect?)

/-- The response to a tree that cannot be loaded. It is told to the user if there is a part that is
no node. -/
def Response.ofRefusal (fault : LoadFault) : Response :=
  match fault with
  | .notANode _ => { stderr := "Error: " ++ fault.message ++ "\n", result := .ok 1 }
  | _ => { result := .error (.load fault) }

namespace Command

theorem runTree_of_error {c : Command} {source : String} {v : Value} {fault : LoadFault}
    {table : Table} (hread : Json.read source = .ok v)
    (hload : Node.load v {} = .error fault table) (fuel : Nat) :
    c.runTree fuel source =
      { Response.ofRefusal fault with
        writes := if c.verbosity = 0 then [] else [(tracePath, "")] } := by
  have hsession : (Session.start c.verbosity false).load source =
      ({ Session.start c.verbosity false with table }, .error (.load fault)) := by
    have htable : Node.load v (Session.start c.verbosity false).table = .error fault table := hload
    rw [Session.load, hread]
    dsimp only
    rw [htable]
  rw [runTree, hsession]
  cases fault <;> rfl

/-- **The first defect decides what becomes of a tree file.** A value is loaded into every table if
no part of it has a defect. Otherwise it is loaded into none, the fault is the first defect, and a
command that runs a file with this value is ended by it: with a message and the status 1 if a part
is no node, and with the failure for a name that is no text or children that are no sequence. -/
theorem respond_of_defect (v : Value) :
    ((∀ w ∈ v.parts, w.defect? = none) → ∀ table : Table, ∃ n t, Node.load v table = .ok n t) ∧
    ∀ fault, v.parts.findSome? defect? = some fault →
      (∀ table : Table, ∃ t, Node.load v table = .error fault t) ∧
      ∀ (c : Command) (fuel : Nat) (bytes : List UInt8) (source : String), c.task = .runTree →
        sourceOf bytes = .ok source → Json.read source = .ok v →
        c.respond fuel (some bytes) =
          { Response.ofRefusal fault with
            writes := if c.verbosity = 0 then [] else [(tracePath, "")] } := by
  obtain ⟨n, hn⟩ | ⟨fault, hf⟩ := Node.load_cases v
  · refine ⟨fun _ table => ⟨n, _, hn.load table⟩, fun fault hfirst => ?_⟩
    cases hn.sound.symm.trans hfirst
  · constructor
    · intro hsound
      cases hf.first.symm.trans (List.findSome?_eq_none_iff.2 hsound)
    · intro fault' hfirst
      obtain rfl : fault = fault' := Option.some.inj (hf.first.symm.trans hfirst)
      refine ⟨hf.load, fun c fuel bytes source hc hsource hread => ?_⟩
      obtain ⟨t, ht⟩ := hf.load {}
      rw [respond, hsource]
      dsimp only
      rw [if_pos hc, runTree_of_error hread ht]

/-- The text of a compound of a variable with a name and one without. -/
def namelessSource : String :=
  "\x7b\"kind\": \"COMPOUND\", \"children\": [" ++
    "\x7b\"kind\": \"VARIABLE\", \"text\": \"x\"\x7d, \x7b\"kind\": \"VARIABLE\"\x7d]\x7d"

/-- The value in it. -/
def namelessValue : Value :=
  .object [("kind", .text "COMPOUND"), ("children", .list [
    .object [("kind", .text "VARIABLE"), ("text", .text "x")],
    .object [("kind", .text "VARIABLE")]])]

theorem respond_of_defect_nameless :
    namelessValue.parts.findSome? defect? = some (.notAName "NoneType") ∧
    sourceOf namelessSource.toUTF8.toList = .ok namelessSource ∧
    Json.read namelessSource = .ok namelessValue ∧
    respond ⟨.runTree, .ofText "t.json", 0, false⟩ 1 (some namelessSource.toUTF8.toList) =
      { result := .error (.load (.notAName "NoneType")) } := by
  have hdefect : namelessValue.parts.findSome? defect? = some (.notAName "NoneType") := by
    rfl
  have hsource : sourceOf namelessSource.toUTF8.toList = .ok namelessSource :=
    sourceOf_of_lineFed (by decide)
  have hread : Json.read namelessSource = .ok namelessValue :=
    Files.eq_ok_of_toOption (by decide +kernel)
  exact ⟨hdefect, hsource, hread,
    ((respond_of_defect namelessValue).2 _ hdefect).2 _ 1 _ _ rfl hsource hread⟩

/-- Loading does not only fail because of a part that is no node. -/
theorem load_not_only_notANode :
    ¬ ∀ (v : Value) (table : Table), (∃ n t, Node.load v table = .ok n t) ∨
      ∃ w t, Node.load v table = .error (.notANode w) t := by
  intro h
  obtain ⟨n, t, ht⟩ | ⟨w, t, ht⟩ := h (.object [("kind", .text "VARIABLE")]) {}
  · cases ht
  · cases ht

end Command

end MiniPascal.CommandLine
