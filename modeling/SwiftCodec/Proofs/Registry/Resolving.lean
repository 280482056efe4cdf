import SwiftCodec.Proofs.Resolution.Cycles

/-!
Resolving what files declare. All names of a struct stay, and so does the name of an enum; an alias
that refers to itself is the one thing that can be wrong.
-/
namespace SwiftCodec

theorem Aliases.aliasCycle_of_error {m : Aliases} {params : List String} {t : TypeExpr} {d : Defect}
    (failed : m.resolveIn params [] t = .error d) : ∃ n, d = .aliasCycle n := by
  obtain ⟨n, cycle⟩ := fails_iff_aliasCycle.mp ⟨d, failed⟩
  cases failed.symm.trans cycle
  exact ⟨n, rfl⟩

namespace Registry

variable {r : Registry} {s s' : StructDecl} {d : Defect}

theorem aliasCycle_of_resolveStruct (failed : r.resolveStruct s = .error d) :
    ∃ n, d = .aliasCycle n := by
  obtain ⟨f, _, failed⟩ := exists_of_mapM_eq_error (bind_ok_eq_error.mp failed)
  exact Aliases.aliasCycle_of_error (bind_ok_eq_error.mp failed)

theorem aliasCycle_of_knownEnums {here : List EnumDecl} (failed : r.knownEnums here = .error d) :
    ∃ n, d = .aliasCycle n := by
  obtain ⟨e, _, failed⟩ := exists_of_mapM_eq_error failed
  exact Aliases.aliasCycle_of_error (bind_ok_eq_error.mp failed)

structure Resolves (r : Registry) (s s' : StructDecl) : Prop where
  name : s'.name = s.name
  parameters : s'.parameters = s.parameters
  nested : s'.nested = s.nested
  fields : List.Forall₂
    (fun f f' => f'.name = f.name ∧ r.aliases.resolveIn s.parameters [] f.type = .ok f'.type)
    s.fields s'.fields

theorem resolves_of_resolveStruct (resolved : r.resolveStruct s = .ok s') : r.Resolves s s' := by
  obtain ⟨fields, hfields, h⟩ := bind_eq_ok.mp resolved
  cases h
  refine ⟨rfl, rfl, rfl, (mapM_eq_ok.mp hfields).imp fun f f' hf => ?_⟩
  obtain ⟨u, hu, h⟩ := bind_eq_ok.mp hf
  cases h
  exact ⟨rfl, hu⟩

theorem resolves_structs {structs structs' : List StructDecl}
    (resolved : structs.mapM r.resolveStruct = .ok structs') :
    List.Forall₂ r.Resolves structs structs' :=
  (mapM_eq_ok.mp resolved).imp fun _ _ => resolves_of_resolveStruct

end Registry

end SwiftCodec
