import SwiftCodec.Declaration.Validity
import SwiftCodec.Proofs.Defect.Traversal
import SwiftCodec.Proofs.Name.Dotted

/-!
What a valid file is: its types have names of their own, and every name and every type in it has
passed its check.
-/
namespace SwiftCodec

theorem checkDotted_eq_ok {role : NameRole} {name : String} :
    checkDotted role name = .ok () ↔ Name.isDotted name := by simp [checkDotted]

theorem checkIdentifier_eq_ok {role : NameRole} {name : String} :
    checkIdentifier role name = .ok () ↔ Name.isIdentifier name := by simp [checkIdentifier]

theorem checkDistinct_eq_ok {seen names : List String} :
    checkDistinct seen names = .ok () ↔
      (∀ n ∈ names, Name.isDotted n) ∧ names.Nodup ∧ ∀ n ∈ names, n ∉ seen := by
  induction names generalizing seen with
  | nil => simp [checkDistinct]
  | cons name names ih =>
    rw [checkDistinct, check_eq_ok, checkDotted_eq_ok]
    by_cases repeated : name ∈ seen
    · simp [repeated]
    have fresh : seen.contains name = false := by simpa using repeated
    simp only [fresh, Bool.false_eq_true, if_false]
    rw [ih, List.forall_mem_cons, List.forall_mem_cons, List.nodup_cons]
    constructor
    · rintro ⟨dotted, rest, distinct, apart⟩
      have absent : name ∉ names := fun member => apart name member List.mem_cons_self
      exact ⟨⟨dotted, rest⟩, ⟨absent, distinct⟩, repeated,
        fun n member earlier => apart n member (List.mem_cons_of_mem _ earlier)⟩
    · rintro ⟨⟨dotted, rest⟩, ⟨absent, distinct⟩, _, apart⟩
      refine ⟨dotted, rest, distinct, fun n member earlier => ?_⟩
      rcases List.mem_cons.mp earlier with rfl | earlier
      · exact absent member
      · exact apart n member earlier

namespace Inventory

theorem validateStruct_eq_ok {s : StructDecl} :
    validateStruct s = .ok () ↔
      (∀ p ∈ s.parameters, Name.isIdentifier p) ∧
        ∀ f ∈ s.fields, Name.isIdentifier f.name ∧ f.type.validate = .ok () := by
  simp only [validateStruct, check_eq_ok, forM_eq_ok, checkIdentifier_eq_ok]

theorem validateAlias_eq_ok {a : AliasDecl} :
    validateAlias a = .ok () ↔ Name.isDotted a.name ∧ a.target.validate = .ok () := by
  simp only [validateAlias, check_eq_ok, checkDotted_eq_ok]

theorem validate_eq_ok {i : Inventory} :
    i.validate = .ok () ↔
      ((∀ n ∈ i.typeNames, Name.isDotted n) ∧ i.typeNames.Nodup) ∧
        (∀ s ∈ i.structs, validateStruct s = .ok ()) ∧
        (∀ e ∈ i.enums, Name.isDotted e.rawType) ∧ ∀ a ∈ i.aliases, validateAlias a = .ok () := by
  simp only [validate, check_eq_ok, forM_eq_ok, checkDistinct_eq_ok, checkDotted_eq_ok]
  simp

end Inventory

end SwiftCodec
