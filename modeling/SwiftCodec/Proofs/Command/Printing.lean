import Mathlib
import SwiftCodec.Proofs.Command.Script

/-!
Generating to the standard output. Loading is all or nothing; what comes behind it goes document by
document, and the exit code tells whether one of them has failed. No file is touched.
-/
namespace SwiftCodec.Command

/-! ## Actions that write no file -/

def Action.printed? : Action → Option String
  | .print text => some text
  | _ => none

def Action.isWrite : Action → Bool
  | .write _ _ => true
  | _ => false

/-- Actions other than writing all succeed and leave the files alone. -/
theorem World.actAll_unwritten {actions : List Action} (unwritten : ∀ a ∈ actions, ¬ a.isWrite)
    (w : World) :
    ∃ lines, w.actAll actions =
      ({ w with
          stdout := w.stdout ++ String.join (actions.filterMap Action.printed?)
          stderr := w.stderr ++ lines }, none) := by
  induction actions generalizing w with
  | nil => exact ⟨"", by simp [actAll, String.join]⟩
  | cons a actions ih =>
    obtain ⟨head, tail⟩ := List.forall_mem_cons.mp unwritten
    cases a with
    | print text =>
      obtain ⟨lines, done⟩ := ih tail { w with stdout := w.stdout ++ text }
      refine ⟨lines, ?_⟩
      rw [actAll_done rfl, done]
      simp [Action.printed?, String.append_assoc]
    | report line =>
      obtain ⟨lines, done⟩ := ih tail { w with stderr := w.stderr ++ line ++ "\n" }
      refine ⟨line ++ "\n" ++ lines, ?_⟩
      rw [actAll_done rfl, done, List.filterMap_cons_none rfl]
      simp [String.append_assoc]
    | write path contents => exact absurd rfl head

/-! ## What there is to print -/

namespace GenerateOptions

variable {o : GenerateOptions}

theorem unwritten_actions (printing : o.stdout) (d : Document)
    (result : Except Defect GeneratedFile) : ∀ a ∈ o.actions d result, ¬ a.isWrite := by
  cases result with
  | error e => simp [actions, Action.isWrite]
  | ok f =>
    unfold actions
    intro a member
    rcases List.mem_append.mp member with member | member
    · obtain ⟨_, _, rfl⟩ := List.mem_map.mp member
      simp [Action.isWrite]
    · split_ifs at member <;> simp_all [Action.isWrite]

theorem printed_actions (printing : o.stdout) (r : Registry) (time : Time) (d : Document) :
    (o.actions d (d.file.generate r time)).filterMap Action.printed? =
      ((d.generated? r time).map (·.contents)).toList := by
  unfold actions Document.generated?
  cases d.file.generate r time with
  | error e => rfl
  | ok f =>
    have warned : (f.listing.warnings.map fun w => Action.report (warningLine w)).filterMap
        Action.printed? = [] := by
      simp [List.filterMap_map, Action.printed?]
    dsimp only
    rw [List.filterMap_append, warned]
    by_cases empty : f.listing.isEmpty <;> simp [empty, printing, Action.printed?]

/-- Running the script of documents prints what is generated from them, and nothing else is done
with it. -/
theorem perform_printing (printing : o.stdout) (alone : ¬ o.emitSupport) (time : Time) (w : World)
    (documents : List Document) :
    let r := Registry.scan (documents.map (·.file))
    ∃ complaints code,
      w.perform (o.script time documents) =
        ({ w with
            stdout := w.stdout ++
              String.join ((documents.filterMap (·.generated? r time)).map (·.contents))
            stderr := w.stderr ++ complaints }, code) ∧
      (code = 1 ∧ (∃ d ∈ documents, Fails (d.file.generate r time)) ∨
        code = 0 ∧ ∀ d ∈ documents, ¬ Fails (d.file.generate r time)) := by
  intro r
  have unwritten : ∀ a ∈ (o.script time documents).actions, ¬ a.isWrite := by
    intro a member
    rw [actions_script, if_neg alone, List.append_nil] at member
    obtain ⟨d, -, member⟩ := List.mem_flatMap.mp member
    exact unwritten_actions printing d _ a member
  have printed : (o.script time documents).actions.filterMap Action.printed? =
      (documents.filterMap (·.generated? r time)).map (·.contents) := by
    rw [actions_script, if_neg alone, List.append_nil, List.filterMap_flatMap, List.map_filterMap,
      List.filterMap_eq_flatMap_toList]
    simp only [printed_actions printing, r]
  obtain ⟨lines, acted⟩ := World.actAll_unwritten unwritten w
  rw [World.perform_of_actAll acted, printed]
  have failing := @failure_script o time documents
  cases failure : (o.script time documents).failure with
  | none => exact ⟨lines, 0, rfl, .inr ⟨rfl, failing.mp failure⟩⟩
  | some f =>
    refine ⟨lines ++ "error: " ++ f.message ++ "\n", 1, ?_, .inl ⟨rfl, ?_⟩⟩
    · simp [String.append_assoc]
    · by_contra none
      push Not at none
      exact absurd (failing.mpr none) (by simp [failure])

end GenerateOptions

/-- If anything is wrong with the inputs, nothing is printed but the complaint. Otherwise the output
is what is generated from the documents that something can be generated from, in their order, each
against the registry of all of them. -/
theorem generation_to_stdout {o : GenerateOptions} (printing : o.stdout) (alone : ¬ o.emitSupport)
    (acting : ¬ o.showOnly) (filtering : Filtering) (time : Time) (w : World) :
    (Blocked filtering w.tree o.inputs ↔ ¬ ∃ documents, Loads filtering w.tree o.inputs documents) ∧
    (Blocked filtering w.tree o.inputs → ∃ complaint,
      (Request.generate o).run filtering time w =
        ({ w with stderr := w.stderr ++ complaint }, 1)) ∧
    ∀ documents, Loads filtering w.tree o.inputs documents →
      let r := Registry.scan (documents.map (·.file))
      ∃ complaints code,
        (Request.generate o).run filtering time w =
          ({ w with
              stdout := w.stdout ++
                String.join ((documents.filterMap (·.generated? r time)).map (·.contents))
              stderr := w.stderr ++ complaints }, code) ∧
        (code = 1 ∧ (∃ d ∈ documents, Fails (d.file.generate r time)) ∨
          code = 0 ∧ ∀ d ∈ documents, ¬ Fails (d.file.generate r time)) := by
  refine ⟨?_, ?_, ?_⟩
  · simp only [← load_fails, ← load_eq_ok]
    exact fails_iff_not_ok
  · intro blocked
    obtain ⟨f, failed⟩ := load_fails.mpr blocked
    refine ⟨"error: " ++ f.message ++ "\n", ?_⟩
    rw [GenerateOptions.run_of_load_failed acting failed]
    simp only [String.append_assoc]
  · intro documents loaded
    rw [GenerateOptions.run_of_loaded acting loaded]
    exact GenerateOptions.perform_printing printing alone time w documents

/-- A file that codecs are generated for. -/
def good : SourceFile := ⟨"Good.swift", [.struct { name := "Good" }]⟩

/-- One with a field that cannot be encoded. -/
def bad : SourceFile :=
  ⟨"Bad.swift", [.struct ⟨"Bad", ["K"], [⟨"byKey", .dictionary (.named "K") (.named "K")⟩], []⟩]⟩

def goodText : String := r#"["Good.swift",[["struct","Good"]]]"#

def badText : String :=
  r#"["Bad.swift",[["struct","Bad",["K"],[["byKey",["Dictionary",null,[["K"],["K"]]]]]]]]"#

def mixedWorld : World where
  tree := { entries := [(["good.json"], .text goodText), (["bad.json"], .text badText)] }

def mixedOptions : GenerateOptions where
  inputs := { patterns := ["bad.json", "good.json"] }
  stdout := true

theorem mixed_loads (filtering : Filtering) :
    Loads filtering mixedWorld.tree mixedOptions.inputs
      [⟨"bad.json", bad⟩, ⟨"good.json", good⟩] := by
  have holds : Holds filtering mixedWorld.tree "bad.json" none [bad] := by
    have read : mixedWorld.tree.readText "bad.json" = .ok badText := by decide +kernel
    exact .document read (by cbv) (by cbv)
  have holds' : Holds filtering mixedWorld.tree "good.json" none [good] := by
    have read : mixedWorld.tree.readText "good.json" = .ok goodText := by decide +kernel
    exact .document read (by cbv) (by cbv)
  refine ⟨[["bad.json"], ["good.json"]], [[⟨"bad.json", bad⟩], [⟨"good.json", good⟩]], ?_, ?_, rfl⟩
  · exact .cons (.path (by decide)) (.cons (.path (by decide)) .nil)
  · exact .cons ⟨_, holds, rfl⟩ (.cons ⟨_, holds', rfl⟩ .nil)

/-- What can be generated is printed, though the file in front of it has failed. -/
theorem generation_to_stdout_mixed :
    ∃ g complaints,
      good.generate (Registry.scan [bad, good]) ⟨0, 0⟩ = .ok g ∧
      (Request.generate mixedOptions).run Json.filtered ⟨0, 0⟩ mixedWorld =
        ({ mixedWorld with stdout := g.contents, stderr := complaints }, 1) := by
  obtain ⟨complaints, code, run, ended⟩ :=
    (generation_to_stdout rfl (by decide) (by decide) Json.filtered ⟨0, 0⟩ mixedWorld).2.2 _
      (mixed_loads Json.filtered)
  have failed : bad.generate (Registry.scan [bad, good]) ⟨0, 0⟩ =
      .error (.unsupportedKey "byKey" "K") := by cbv
  obtain ⟨g, generated, filled⟩ : ∃ g, good.generate (Registry.scan [bad, good]) ⟨0, 0⟩ = .ok g ∧
      ¬ g.listing.isEmpty := ⟨_, by cbv, by decide⟩
  refine ⟨g, complaints, generated, ?_⟩
  rcases ended with ⟨rfl, -⟩ | ⟨-, all⟩
  · rw [run]
    simp [Document.generated?, failed, generated, filled, mixedWorld]
  · exact absurd ⟨_, failed⟩ (all ⟨"bad.json", bad⟩ (by simp))

end SwiftCodec.Command
