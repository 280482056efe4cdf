import SwiftCodec.Command.Run
import SwiftCodec.Proofs.Command.Loading

/-!
Scripts. What a request does is settled by its documents: nothing if they cannot be loaded, else the
actions for one document after the other, up to the first that fails.
-/
namespace SwiftCodec.Command

namespace World

variable {w w' : World} {a : Action} {rest : List Action}

/-- After an action that has succeeded the others follow. -/
theorem actAll_done (done : w.act a = (w', none)) : w.actAll (a :: rest) = w'.actAll rest := by
  rw [actAll, done]

/-- If nothing has failed, the first action has not. -/
theorem done_of_actAll (succeeded : (w.actAll (a :: rest)).2 = none) :
    w.act a = ((w.act a).1, none) ∧ ((w.act a).1.actAll rest).2 = none := by
  rw [actAll] at succeeded
  split at succeeded
  · rename_i w' done
    rw [done]
    exact ⟨rfl, succeeded⟩
  · cases succeeded

/-- If nothing has failed, what comes behind starts where the first actions have ended. -/
theorem actAll_append {before : List Action} (succeeded : (w.actAll (before ++ rest)).2 = none) :
    (w.actAll before).2 = none ∧ w.actAll (before ++ rest) = (w.actAll before).1.actAll rest := by
  induction before generalizing w with
  | nil => exact ⟨rfl, rfl⟩
  | cons a before ih =>
    obtain ⟨done, succeeded⟩ := done_of_actAll succeeded
    rw [List.cons_append, actAll_done done, actAll_done done]
    exact ih succeeded

/-- A failure is reported, and changes nothing else. -/
theorem perform_of_actAll {s : Script} (acted : w.actAll s.actions = (w', none)) :
    w.perform s =
      match s.failure with
      | none => (w', 0)
      | some f => ({ w' with stderr := w'.stderr ++ "error: " ++ f.message ++ "\n" }, 1) := by
  rw [perform, acted]
  cases s.failure <;> rfl

end World

/-- The script that follows once the documents are known. -/
theorem afterLoading_answer (filtering : Filtering) (t : Tree) (inputs : Inputs)
    (script : List Document → Script) :
    (afterLoading filtering inputs script).answer t =
      match (load filtering inputs).outcome t with
      | .error f => ⟨[], some f⟩
      | .ok documents => script documents := by
  unfold afterLoading Loading.outcome
  rw [Inquiry.answer_bind]
  cases Inquiry.answer t (load filtering inputs).run <;> rfl

/-- The file generated from a document, if there is one and anything in it. -/
def Document.generated? (r : Registry) (time : Time) (d : Document) : Option GeneratedFile :=
  match d.file.generate r time with
  | .ok f => if f.listing.isEmpty then none else some f
  | .error _ => none

namespace GenerateOptions

variable {filtering : Filtering} {o : GenerateOptions} {time : Time} {w : World}

theorem run_of_load_failed (acting : ¬ o.showOnly) {f : Failure}
    (failed : (load filtering o.inputs).outcome w.tree = .error f) :
    (Request.generate o).run filtering time w =
      ({ w with stderr := w.stderr ++ "error: " ++ f.message ++ "\n" }, 1) := by
  rw [Request.run, Request.script, if_neg acting, afterLoading_answer, failed]
  rfl

theorem run_of_loaded (acting : ¬ o.showOnly) {documents : List Document}
    (loaded : Loads filtering w.tree o.inputs documents) :
    (Request.generate o).run filtering time w = w.perform (o.script time documents) := by
  rw [Request.run, Request.script, if_neg acting, afterLoading_answer, load_eq_ok.mpr loaded]

theorem actions_script (documents : List Document) :
    (o.script time documents).actions =
      (documents.flatMap fun d =>
        o.actions d (d.file.generate (Registry.scan (documents.map (·.file))) time)) ++
      if o.emitSupport then
        writeReported (Path.join (o.out.getD ".") Support.filename) Support.source
      else [] := by
  unfold script
  dsimp only
  rw [List.flatMap_map]

/-- A script has a failure of its own, behind its actions, if a document has failed. -/
theorem failure_script (documents : List Document) :
    (o.script time documents).failure = none ↔
      ∀ d ∈ documents, ¬ Fails (d.file.generate (Registry.scan (documents.map (·.file))) time) := by
  unfold script
  dsimp only
  split_ifs with failing
  · obtain ⟨⟨d, r⟩, member, failed⟩ := List.countP_pos_iff.mp failing
    obtain ⟨d, present, h⟩ := List.mem_map.mp member
    cases h
    simp only [false_iff, not_forall, not_not]
    refine ⟨d, present, ?_⟩
    split at failed
    · exact ⟨_, ‹_›⟩
    · cases failed
  · rw [Nat.not_lt, Nat.le_zero, List.countP_eq_zero, List.forall_mem_map] at failing
    simp only [true_iff]
    rintro d present ⟨e, failed⟩
    exact failing d present (by rw [failed])

end GenerateOptions

end SwiftCodec.Command
