import SwiftCodec.Proofs.Codec.Keys
import SwiftCodec.Proofs.Codec.Plans
import Mathlib.Data.List.Forall2

/-!
Resolved types that generated code cannot tell apart. They have the same nodes with arguments; where
a name of one stands against a name of the other, both stand for the same final name and the same
marker.
-/
namespace SwiftCodec.TypeExpr

inductive Alike : TypeExpr → TypeExpr → Prop where
  | refl (t : TypeExpr) : Alike t t
  | name {a b : String} {x y : Option String}
      (plain : shape ⟨a, x, []⟩ = .ok .plain) (plain' : shape ⟨b, y, []⟩ = .ok .plain)
      (final : resolvedName ⟨a, x, []⟩ = resolvedName ⟨b, y, []⟩)
      (marker : Marker.of? ⟨a, x, []⟩ = Marker.of? ⟨b, y, []⟩) : Alike ⟨a, x, []⟩ ⟨b, y, []⟩
  | args {base : String} {target : Option String} {ts us : List TypeExpr}
      (inside : List.Forall₂ Alike ts us) : Alike ⟨base, target, ts⟩ ⟨base, target, us⟩

theorem Alike.resolvedName_eq {t u : TypeExpr} (alike : Alike t u) :
    t.resolvedName = u.resolvedName := by
  cases alike with
  | refl => rfl
  | name _ _ final _ => exact final
  | args => rfl

theorem Alike.plan_eq {t u : TypeExpr} (alike : Alike t u) (params : List String) :
    Plan.of params t = Plan.of params u := by
  induction t generalizing u with
  | node base target ts ih =>
    cases alike with
    | refl => rfl
    | name _ _ final marker => exact Plan.of_congr marker final rfl
    | @args _ _ _ us inside =>
      refine Plan.of_congr rfl rfl ?_
      induction inside with
      | nil => rfl
      | @cons t u ts us head _ rest =>
        simp only [List.map_cons, ih t List.mem_cons_self head]
        rw [rest fun a member => ih a (List.mem_cons_of_mem _ member)]

/-- Like types have the same shape as far as the key of a dictionary goes. -/
theorem Alike.keyName_eq {t u : TypeExpr} (alike : Alike t u) :
    t.shape.map Shape.keyName? = u.shape.map Shape.keyName? := by
  cases alike with
  | refl => rfl
  | name plain plain' => rw [plain, plain']
  | @args base target ts us inside =>
    unfold shape
    cases inside with
    | nil => rfl
    | @cons t u ts us head rest =>
      cases rest with
      | nil => split_ifs <;> rfl
      | @cons t' u' ts us next rest =>
        have length := rest.length_eq
        cases rest with
        | nil => split_ifs <;> simp [Except.map, Shape.keyName?, head.resolvedName_eq]
        | cons => split_ifs <;> simp_all [Except.map, Shape.keyName?]

end SwiftCodec.TypeExpr
