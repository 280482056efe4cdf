import SwiftCodec.Declaration.Validity
import SwiftCodec.Proofs.Defect.Traversal
import SwiftCodec.Proofs.TypeExpr.Nodes

/-!
What a valid type is: at every node the name is dotted and the number of arguments is one that the
name takes.
-/
namespace SwiftCodec

namespace TypeExpr

theorem validateAll_eq_ok {ts : List TypeExpr} :
    validateAll ts = .ok () ↔ ∀ t ∈ ts, t.validate = .ok () := by
  induction ts with
  | nil => simp [validateAll]
  | cons t ts ih =>
    simp only [validateAll, check_eq_ok, List.forall_mem_cons, ih]

theorem validate_eq_ok {t : TypeExpr} :
    t.validate = .ok () ↔
      Name.isDotted t.base ∧ (∃ s, t.shape = .ok s) ∧ ∀ a ∈ t.args, a.validate = .ok () := by
  obtain ⟨base, target, args⟩ := t
  have dotted : checkDotted .typeName base = .ok () ↔ Name.isDotted base := by
    simp [checkDotted]
  have shaped : discard (shape ⟨base, target, args⟩) = .ok () ↔
      ∃ s, shape ⟨base, target, args⟩ = .ok s := by
    cases shape ⟨base, target, args⟩ <;> simp [discard, Functor.mapConst, Except.map]
  simp only [validate, check_eq_ok, dotted, shaped, validateAll_eq_ok]

/-- Whether a type has a shape depends on its name and the number of its arguments. -/
theorem shaped_iff {t : TypeExpr} :
    (∃ s, t.shape = .ok s) ↔
      (t.base = "Optional" ∨ t.base = "Array" → t.args.length = 1) ∧
        (t.base = "Dictionary" → t.args.length = 2) := by
  obtain ⟨base, target, args⟩ := t
  unfold shape
  dsimp only
  split
  · rename_i optional
    match args with
    | [] | [_] | _ :: _ :: _ => simp [optional]
  · split
    · rename_i array
      match args with
      | [] | [_] | _ :: _ :: _ => simp [array]
    · split
      · rename_i dictionary
        match args with
        | [] | [_] | [_, _] | _ :: _ :: _ :: _ => simp [dictionary]
      · rename_i optional array dictionary
        match args with
        | [] | _ :: _ => simp [optional, array, dictionary]

/-- A valid type is one whose nodes are all well formed. -/
theorem validate_iff_nodes {t : TypeExpr} :
    t.validate = .ok () ↔ ∀ n ∈ t.nodes, Name.isDotted n.base ∧ ∃ s, n.shape = .ok s := by
  induction t with
  | node base target args ih =>
    rw [validate_eq_ok]
    constructor
    · rintro ⟨dotted, shaped, valid⟩ n member
      rcases mem_nodes.mp member with rfl | ⟨a, arg, inside⟩
      · exact ⟨dotted, shaped⟩
      · exact (ih a arg).mp (valid a arg) n inside
    · intro formed
      obtain ⟨dotted, shaped⟩ := formed _ (self_mem_nodes _)
      exact ⟨dotted, shaped, fun a arg =>
        (ih a arg).mpr fun n inside => formed n (mem_nodes_of_arg arg inside)⟩

/-- A name is plain unless it is one of those that take arguments. -/
theorem shape_name {base : String} {target : Option String} {s : Shape}
    (shaped : shape ⟨base, target, []⟩ = .ok s) (target' : Option String) :
    shape ⟨base, target', []⟩ = .ok .plain := by
  unfold shape at shaped ⊢
  split at shaped
  · cases shaped
  · split at shaped
    · cases shaped
    · split at shaped
      · cases shaped
      · rename_i optional array dictionary
        simp [optional, array, dictionary]

/-- A type as a declaration that passes validation has it. -/
structure Declared (t : TypeExpr) : Prop where
  valid : t.validate = .ok ()
  written : t.Written

instance (t : TypeExpr) : Decidable t.Declared :=
  decidable_of_iff (t.validate = .ok () ∧ t.Written)
    ⟨fun h => ⟨h.1, h.2⟩, fun h => ⟨h.valid, h.written⟩⟩

theorem Declared.arg {t a : TypeExpr} (declared : t.Declared) (arg : a ∈ t.args) : a.Declared where
  valid := (validate_eq_ok.mp declared.valid).2.2 a arg
  written := declared.written.arg arg

end TypeExpr

end SwiftCodec
