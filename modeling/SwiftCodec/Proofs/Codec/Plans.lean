import SwiftCodec.Codec.Plan
import SwiftCodec.Proofs.TypeExpr.Nodes

/-!
Plans, node by node, and the texts made from them.
-/
namespace SwiftCodec.Plan

variable {params : List String}

theorem ofAll_eq_map (ts : List TypeExpr) : ofAll params ts = ts.map (of params) := by
  induction ts with
  | nil => rfl
  | cons t ts ih => simp [ofAll, ih]

theorem of_marker {t : TypeExpr} {kind : Marker} (marked : Marker.of? t = some kind) :
    of params t = .marker kind t.resolvedName := by
  obtain ⟨base, target, args⟩ := t
  simp only [of, marked]

theorem of_parameter {t : TypeExpr} (unmarked : Marker.of? t = none)
    (own : t.resolvedName ∈ params) :
    of params t = .parameter t.resolvedName (t.args.map (of params)) := by
  obtain ⟨base, target, args⟩ := t
  simp only [of, unmarked, List.contains_iff_mem.mpr own, if_true, ofAll_eq_map]

theorem of_own {t : TypeExpr} (unmarked : Marker.of? t = none) (foreign : t.resolvedName ∉ params) :
    of params t = .own t.resolvedName (t.args.map (of params)) := by
  obtain ⟨base, target, args⟩ := t
  have absent : params.contains (TypeExpr.resolvedName ⟨base, target, args⟩) = false := by
    simpa using foreign
  simp only [of, unmarked, absent, ofAll_eq_map]
  rfl

/-- A plan is settled by the marker and the final name of a type and by the plans of its
arguments. -/
theorem of_congr {t u : TypeExpr} (marker : Marker.of? t = Marker.of? u)
    (name : t.resolvedName = u.resolvedName)
    (args : t.args.map (of params) = u.args.map (of params)) : of params t = of params u := by
  cases marked : Marker.of? t with
  | some kind => rw [of_marker marked, of_marker (marker.symm.trans marked), name]
  | none =>
    have marked' := marker.symm.trans marked
    by_cases own : t.resolvedName ∈ params
    · rw [of_parameter marked own, of_parameter marked' (name ▸ own), name, args]
    · rw [of_own marked own, of_own marked' (name ▸ own), name, args]

end SwiftCodec.Plan
