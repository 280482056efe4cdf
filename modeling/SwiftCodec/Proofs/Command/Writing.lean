import Mathlib
import SwiftCodec.Proofs.Command.Script
import SwiftCodec.Proofs.Files.Places
import SwiftCodec.Proofs.Output.Emission

/-!
Generating into files. A written file holds its text until another is written to the same place,
so every output is kept exactly when no two with different contents go to one place.
-/
namespace SwiftCodec.Command

/-! ## Runs of actions that write -/

namespace World

variable {w w' : World} {path contents text : String} {actions : List Action}

/-- Once there are directories above it, the file is written. -/
theorem exists_write_of_store (done : w.store path contents = (w', none)) :
    ∃ t, Tree.Grows w.tree t ∧ t.write path contents = .ok w'.tree := by
  unfold store at done
  dsimp only at done
  cases made : (if ((Path.parent? path).getD "").isEmpty then (none, w.tree)
      else w.tree.makeDirectories ((Path.parent? path).getD "")) with
  | mk refused? t =>
    have grows : Tree.Grows w.tree t := by
      split_ifs at made
      · cases made
        exact .refl w.tree
      · have grows := Tree.grows_makeDirectories w.tree ((Path.parent? path).getD "")
        rwa [made] at grows
    rw [made] at done
    cases refused? with
    | some e => cases done
    | none =>
      dsimp only at done
      split at done
      · cases done
        exact ⟨t, grows, ‹_›⟩
      · cases done

theorem stored_of_store (done : w.store path contents = (w', none)) :
    Tree.Stored w.tree w'.tree (w.tree.placeOf path) contents ∧
      w'.tree.readText path = .ok contents := by
  obtain ⟨mid, grows, written⟩ := exists_write_of_store done
  obtain ⟨stored, read⟩ := Tree.stored_of_write written
  rw [Tree.placeOf_congr grows.home] at stored
  exact ⟨grows.stored stored, read⟩

end World

/-- What an action leaves of the text in a place. -/
def Action.leaves (t : Tree) (place : List String) (text : String) : Action → String
  | .write path contents => if t.placeOf path = place then contents else text
  | _ => text

namespace World

variable {w w' : World} {path contents text : String} {a : Action} {actions : List Action}

theorem home_of_act (done : w.act a = (w', none)) : w'.tree.home = w.tree.home := by
  cases a with
  | print | report => cases done; rfl
  | write path contents => exact (stored_of_store done).1.home

theorem readText_of_act (done : w.act a = (w', none)) (read : w.tree.readText path = .ok text) :
    w'.tree.readText path = .ok (a.leaves w.tree (w.tree.placeOf path) text) := by
  cases a with
  | print | report => cases done; exact read
  | write path' contents =>
    rw [(stored_of_store done).1.readText read]
    simp only [Action.leaves, eq_comm]

theorem home_of_actAll (succeeded : (w.actAll actions).2 = none) :
    (w.actAll actions).1.tree.home = w.tree.home := by
  induction actions generalizing w with
  | nil => rfl
  | cons a actions ih =>
    obtain ⟨done, succeeded⟩ := done_of_actAll succeeded
    rw [actAll_done done, ih succeeded, home_of_act done]

/-- A file that is there has at the end what was last written to its place. -/
theorem readText_of_actAll (succeeded : (w.actAll actions).2 = none)
    (read : w.tree.readText path = .ok text) :
    (w.actAll actions).1.tree.readText path =
      .ok (actions.foldl (Action.leaves w.tree (w.tree.placeOf path)) text) := by
  induction actions generalizing w text with
  | nil => exact read
  | cons a actions ih =>
    obtain ⟨done, succeeded⟩ := done_of_actAll succeeded
    have same : Action.leaves (w.act a).1.tree = Action.leaves w.tree := by
      funext place text a
      cases a <;> simp only [Action.leaves, Tree.placeOf_congr (home_of_act done)]
    rw [actAll_done done, ih succeeded (readText_of_act done read), same,
      Tree.placeOf_congr (home_of_act done), List.foldl_cons]

theorem foldl_leaves {t : Tree} {place : List String}
    (agree : ∀ path contents, .write path contents ∈ actions → t.placeOf path = place →
      contents = text) : actions.foldl (Action.leaves t place) text = text := by
  induction actions with
  | nil => rfl
  | cons a actions ih =>
    have left : a.leaves t place text = text := by
      cases a with
      | print | report => rfl
      | write path contents =>
        simp only [Action.leaves]
        split_ifs with same
        · exact agree path contents List.mem_cons_self same
        · rfl
    rw [List.foldl_cons, left]
    exact ih fun path contents later => agree path contents (List.mem_cons_of_mem a later)

/-- What has been written is there at the end, if all that went to the same place is the same. -/
theorem readText_of_written (succeeded : (w.actAll actions).2 = none)
    (written : .write path contents ∈ actions)
    (agree : ∀ path' contents', .write path' contents' ∈ actions →
      w.tree.placeOf path' = w.tree.placeOf path → contents' = contents) :
    (w.actAll actions).1.tree.readText path = .ok contents := by
  obtain ⟨before, behind, rfl⟩ := List.append_of_mem written
  obtain ⟨begun, split⟩ := actAll_append succeeded
  rw [split] at succeeded ⊢
  obtain ⟨done, succeeded⟩ := done_of_actAll succeeded
  have home := home_of_actAll begun
  have here : ((w.actAll before).1.act (.write path contents)).1.tree.placeOf =
      w.tree.placeOf := by
    funext p
    rw [Tree.placeOf_congr (home_of_act done), Tree.placeOf_congr home]
  rw [actAll_done done, readText_of_actAll succeeded (stored_of_store done).2, foldl_leaves]
  intro path' contents' later same
  rw [here] at same
  exact agree path' contents' (by simp [later]) same

end World

/-! ## What is written -/

namespace GenerateOptions

variable {o : GenerateOptions} {time : Time} {path contents : String}

theorem write_mem_actions (writing : ¬ o.stdout) (r : Registry) (d : Document) :
    .write path contents ∈ o.actions d (d.file.generate r time) ↔
      ∃ g, d.generated? r time = some g ∧ path = o.target d g ∧ contents = g.contents := by
  unfold actions Document.generated?
  cases d.file.generate r time with
  | error e => simp
  | ok f =>
    have quiet : Action.write path contents ∉
        f.listing.warnings.map fun w => Action.report (warningLine w) := by simp
    simp only [List.mem_append, quiet, false_or]
    by_cases empty : f.listing.isEmpty <;> simp [empty, writing, writeReported]

/-- Files are written for the documents that something is generated from, and the support file. -/
theorem write_mem_script (writing : ¬ o.stdout) (documents : List Document) :
    .write path contents ∈ (o.script time documents).actions ↔
      (∃ d ∈ documents, ∃ g,
        d.generated? (Registry.scan (documents.map (·.file))) time = some g ∧
          path = o.target d g ∧ contents = g.contents) ∨
      (o.emitSupport ∧ path = Path.join (o.out.getD ".") Support.filename ∧
        contents = Support.source) := by
  rw [actions_script, List.mem_append, List.mem_flatMap]
  simp only [write_mem_actions writing]
  by_cases emitted : o.emitSupport <;> simp [emitted, writeReported]

theorem filename_of_generated? {r : Registry} {d : Document} {g : GeneratedFile}
    (generated : d.generated? r time = some g) :
    ∃ stem, g.filename.toList = stem ++ "+JsonGen.swift".toList := by
  unfold Document.generated? at generated
  split at generated
  · rename_i f made
    split_ifs at generated
    cases generated
    rw [SourceFile.filename_of_generate made, outputFilename, String.toList_append]
    exact ⟨_, rfl⟩
  · cases generated

/-- The support file has a place of its own. -/
theorem support_apart {r : Registry} {d : Document} {g : GeneratedFile} (t : Tree)
    (generated : d.generated? r time = some g) (directory : String) :
    t.placeOf (Path.join directory Support.filename) ≠ t.placeOf (o.target d g) := by
  intro same
  obtain ⟨stem, named⟩ := filename_of_generated? generated
  obtain ⟨front, joined, -⟩ :=
    Path.toList_join (o.out.getD ((Path.parent? d.path).getD "")) g.filename
  rw [named, ← List.append_assoc] at joined
  obtain ⟨before, last, target, -⟩ := Path.names_append joined (by decide)
  obtain ⟨front', joined', closed⟩ := Path.toList_join directory Support.filename
  obtain ⟨before', last', support, alone⟩ := Path.names_append joined' (by decide)
  obtain rfl := alone closed
  -- Neither name is dots, and that of the support file is too short for such an ending.
  have ending : "+JsonGen.swift".length = 14 := by decide
  have whole : Support.filename.length = 13 := by decide
  have long : 2 < (String.ofList ([] ++ Support.filename.toList)).length := by decide
  have long' : 2 < (String.ofList (last ++ "+JsonGen.swift".toList)).length := by
    simp only [String.length_ofList, List.length_append, String.length_toList]
    omega
  have ends := (Tree.getLast?_placeOf t support long).symm.trans
    ((congrArg List.getLast? same).trans (Tree.getLast?_placeOf t target long'))
  have lengths := congrArg (·.map String.length) ends
  simp only [Option.map_some, String.length_ofList, List.length_append, List.length_nil,
    String.length_toList, Option.some.injEq] at lengths
  omega

end GenerateOptions

/-- At the end of a run in which all has been written, the outputs are in their files exactly if
those that go to the same place have the same contents. -/
theorem outputs_kept_iff {filtering : Filtering} {o : GenerateOptions} {time : Time} {w : World}
    {documents : List Document} (writing : ¬ o.stdout) (acting : ¬ o.showOnly)
    (loaded : Loads filtering w.tree o.inputs documents)
    (succeeded : (w.actAll (o.script time documents).actions).2 = none) :
    let r := Registry.scan (documents.map (·.file))
    let final := ((Request.generate o).run filtering time w).1.tree
    (∀ d ∈ documents, ∀ g ∈ d.generated? r time,
      final.readText (o.target d g) = .ok g.contents) ↔
    ∀ d ∈ documents, ∀ d' ∈ documents, ∀ g ∈ d.generated? r time, ∀ g' ∈ d'.generated? r time,
      w.tree.placeOf (o.target d g) = w.tree.placeOf (o.target d' g') →
        g.contents = g'.contents := by
  intro r final
  have ended : final = (w.actAll (o.script time documents).actions).1.tree := by
    have acted := World.perform_of_actAll (s := o.script time documents) (Prod.ext rfl succeeded)
    change ((Request.generate o).run filtering time w).1.tree = _
    rw [GenerateOptions.run_of_loaded acting loaded, acted]
    cases (o.script time documents).failure <;> rfl
  have home := World.home_of_actAll succeeded
  rw [ended]
  constructor
  · intro kept d member d' member' g generated g' generated' same
    -- One place has one text, and both are read there.
    have entry := (Tree.readText_eq_ok.mp (kept d member g generated)).2
    have entry' := (Tree.readText_eq_ok.mp (kept d' member' g' generated')).2
    rw [Tree.placeOf_congr home, same] at entry
    rw [Tree.placeOf_congr home, entry] at entry'
    simpa using entry'
  · intro agree d member g generated
    apply World.readText_of_written succeeded
    · exact (GenerateOptions.write_mem_script writing documents).mpr
        (.inl ⟨d, member, g, generated, rfl, rfl⟩)
    · intro path' contents' written same
      rcases (GenerateOptions.write_mem_script writing documents).mp written with
        ⟨d', member', g', generated', rfl, rfl⟩ | ⟨-, rfl, -⟩
      · exact agree d' member' d member g' generated' g generated same
      · exact absurd same (GenerateOptions.support_apart w.tree generated _)

def firstTwin : SourceFile := ⟨"M.swift", [.struct { name := "A" }]⟩

def secondTwin : SourceFile := ⟨"M.swift", [.struct { name := "B" }]⟩

/-- Documents of one name from different directories. -/
def twins : List Document := [⟨"a/M.json", firstTwin⟩, ⟨"b/M.json", secondTwin⟩]

def firstText : String := r#"["M.swift",[["struct","A"]]]"#

def secondText : String := r#"["M.swift",[["struct","B"]]]"#

def twinWorld : World where
  tree := { entries := [
    (["a"], .directory), (["a", "M.json"], .text firstText),
    (["b"], .directory), (["b", "M.json"], .text secondText)] }

def twinOptions (out : Option String) : GenerateOptions where
  inputs := { patterns := ["a/M.json", "b/M.json"] }
  out := out

theorem twins_load (filtering : Filtering) (out : Option String) :
    Loads filtering twinWorld.tree (twinOptions out).inputs twins := by
  have holds : Holds filtering twinWorld.tree "a/M.json" none [firstTwin] := by
    have read : twinWorld.tree.readText "a/M.json" = .ok firstText := by decide +kernel
    exact .document read (by cbv) (by cbv)
  have holds' : Holds filtering twinWorld.tree "b/M.json" none [secondTwin] := by
    have read : twinWorld.tree.readText "b/M.json" = .ok secondText := by decide +kernel
    exact .document read (by cbv) (by cbv)
  refine ⟨[["a/M.json"], ["b/M.json"]], twins.map ([·]), ?_, ?_, rfl⟩
  · exact .cons (.path (by decide)) (.cons (.path (by decide)) .nil)
  · exact .cons ⟨_, holds, rfl⟩ (.cons ⟨_, holds', rfl⟩ .nil)

theorem outputs_kept_iff_apart :
    (twinWorld.actAll ((twinOptions none).script ⟨0, 0⟩ twins).actions).2 = none ∧
    ∀ d ∈ twins, ∀ g ∈ d.generated? (Registry.scan (twins.map (·.file))) ⟨0, 0⟩,
      ((Request.generate (twinOptions none)).run Json.filtered ⟨0, 0⟩ twinWorld).1.tree.readText
        ((twinOptions none).target d g) = .ok g.contents := by
  have succeeded : (twinWorld.actAll ((twinOptions none).script ⟨0, 0⟩ twins).actions).2 = none :=
    Option.isNone_iff_eq_none.mp (by decide +kernel)
  refine ⟨succeeded, ?_⟩
  apply (outputs_kept_iff (by decide) (by decide) (twins_load Json.filtered none) succeeded).mpr
  decide +kernel

/-- With one directory for both, the second of the two outputs is all that is left. -/
theorem twins_overwritten :
    let o := twinOptions (some "gen")
    Loads Json.filtered twinWorld.tree o.inputs twins ∧
    (twinWorld.actAll (o.script ⟨0, 0⟩ twins).actions).2 = none ∧
    ¬ ∀ d ∈ twins, ∀ g ∈ d.generated? (Registry.scan (twins.map (·.file))) ⟨0, 0⟩,
      ((Request.generate o).run Json.filtered ⟨0, 0⟩ twinWorld).1.tree.readText (o.target d g) =
        .ok g.contents := by
  have succeeded :
      (twinWorld.actAll ((twinOptions (some "gen")).script ⟨0, 0⟩ twins).actions).2 = none :=
    Option.isNone_iff_eq_none.mp (by decide +kernel)
  refine ⟨twins_load _ _, succeeded, ?_⟩
  rw [GenerateOptions.run_of_loaded (by decide) (twins_load _ _),
    World.perform_of_actAll (Prod.ext rfl succeeded)]
  decide +kernel

end SwiftCodec.Command
