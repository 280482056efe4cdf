import SwiftCodec.Proofs.Codec.Alike
import SwiftCodec.Proofs.Resolution.Scope
import SwiftCodec.Proofs.TypeExpr.Validity

/-!
Writing the target of an alias in the place of its name. Resolution then goes on to a type that
generated code cannot tell from the one it came to before: the same type, or a name that stands for
the same final name.
-/
namespace SwiftCodec.Aliases

/-- Some aliases of a type have been replaced by their targets. A target stands inside a struct
only if the type arguments of the struct do not shadow any of its names. -/
inductive Unfolds (m : Aliases) (params : List String) : TypeExpr → TypeExpr → Prop where
  | refl (t : TypeExpr) : Unfolds m params t t
  | target {name : String} {t : TypeExpr} (exposed : name ∉ params)
      (known : m.target? name = some t) (free : ∀ a ∈ t.leaves, a ∉ params) :
      Unfolds m params (.named name) t
  | args {base : String} {target : Option String} {ts us : List TypeExpr}
      (inside : List.Forall₂ (Unfolds m params) ts us) :
      Unfolds m params ⟨base, target, ts⟩ ⟨base, target, us⟩

variable {m : Aliases} {params : List String}

theorem marker_of_target {name : String} {t : TypeExpr} (known : m.target? name = some t) :
    Marker.named? name = none := by
  unfold target? at known
  split at known
  · cases known
  · rename_i unmarked
    simpa using unmarked

theorem declared_of_target (declared : ∀ e ∈ m.entries, e.2.Declared) {name : String} {t : TypeExpr}
    (known : m.target? name = some t) : t.Declared :=
  declared (name, t) (mem_entries_of_target? known)

/-- A target without arguments carries on with the name it stands for. -/
theorem alike_of_name {name base : String} (declared : TypeExpr.Declared ⟨name, none, []⟩)
    (known : m.target? name = some ⟨base, none, []⟩)
    (target_declared : TypeExpr.Declared ⟨base, none, []⟩) (free : base ∉ params)
    {chain : List String} {end? : Option TypeExpr}
    (reached : m.follow [name] base = .ok (chain, end?)) {u : TypeExpr}
    (resolved : m.replace name none chain (some (end?.getD ⟨base, none, []⟩)) = .ok u) :
    ∃ u', m.resolveIn params [] ⟨base, none, []⟩ = .ok u' ∧ TypeExpr.Alike u u' := by
  have unmarked := marker_of_target known
  obtain ⟨_, shaped, _⟩ := TypeExpr.validate_eq_ok.mp declared.valid
  obtain ⟨_, shaped', _⟩ := TypeExpr.validate_eq_ok.mp target_declared.valid
  obtain ⟨s, shaped⟩ := shaped
  obtain ⟨s', shaped'⟩ := shaped'
  obtain ⟨chain', reached', fewer⟩ := follow_shorter reached (List.nil_subset _)
  rw [resolveIn_name free, reached']
  match end? with
  | none =>
    cases resolved
    refine ⟨_, rfl, .name (TypeExpr.shape_name shaped _) (TypeExpr.shape_name shaped' _) rfl ?_⟩
    simp [Marker.of?, unmarked]
  | some ⟨final, _, []⟩ =>
    cases resolved
    refine ⟨_, rfl, .name (TypeExpr.shape_name shaped _) (TypeExpr.shape_name shaped' _) rfl ?_⟩
    have unmarked' : Marker.named? base = none := by
      cases known' : m.target? base with
      | none => cases (follow_unknown known').symm.trans reached
      | some t => exact marker_of_target known'
    simp [Marker.of?, unmarked, unmarked']
  | some ⟨final, _, arg :: args⟩ =>
    obtain ⟨us, hus, h⟩ := bind_eq_ok.mp resolved
    cases h
    have kept := mapM_ok_mono (fun a _ u hu => resolveIn_shorter hu fewer) hus
    exact ⟨_, bind_eq_ok.mpr ⟨_, rfl, bind_eq_ok.mpr ⟨us, kept, rfl⟩⟩, .refl _⟩

theorem alike_of_target {name : String} {t u : TypeExpr} (exposed : name ∉ params)
    (declared : (TypeExpr.named name).Declared) (known : m.target? name = some t)
    (target_declared : t.Declared) (free : ∀ a ∈ t.leaves, a ∉ params)
    (resolved : m.resolveIn params [] (.named name) = .ok u) :
    ∃ u', m.resolveIn params [] t = .ok u' ∧ TypeExpr.Alike u u' := by
  rw [TypeExpr.named, resolveIn_name exposed] at resolved
  obtain ⟨⟨chain, end?⟩, reached, resolved⟩ := bind_eq_ok.mp resolved
  obtain ⟨base, target, args⟩ := t
  obtain rfl : target = none := target_declared.written.target_eq
  cases args with
  | nil =>
    rw [follow_plain known List.not_mem_nil rfl] at reached
    obtain ⟨⟨chain', further⟩, hfurther, h⟩ := bind_eq_ok.mp reached
    cases h
    exact alike_of_name declared known target_declared (free base (by simp)) hfurther resolved
  | cons arg args =>
    rw [follow_applied known List.not_mem_nil (by simp)] at reached
    cases reached
    obtain ⟨us, hus, h⟩ := bind_eq_ok.mp resolved
    cases h
    have applied : arg :: args ≠ [] := List.cons_ne_nil _ _
    have kept : (arg :: args).mapM (m.resolveIn params []) = .ok us := by
      refine mapM_ok_mono (fun a member u hu => ?_) hus
      have outside : m.resolveIn params [] a = m.resolveIn [] [] a := by
        refine resolveIn_params fun b leaf => ?_
        simp [free b ((TypeExpr.mem_leaves_node applied).mpr ⟨a, member, leaf⟩)]
      rw [outside]
      exact resolveIn_shorter hu (List.nil_subset _)
    rw [resolveIn_applied applied]
    exact ⟨_, bind_eq_ok.mpr ⟨us, kept, rfl⟩, .refl _⟩

/-- If a type can be resolved, so can the type with some of its aliases replaced by their targets,
and generated code cannot tell the results apart. -/
theorem resolveIn_unfolds (declared : ∀ e ∈ m.entries, e.2.Declared) {t t' u : TypeExpr}
    (type_declared : t.Declared) (unfolds : m.Unfolds params t t')
    (resolved : m.resolveIn params [] t = .ok u) :
    ∃ u', m.resolveIn params [] t' = .ok u' ∧ TypeExpr.Alike u u' := by
  induction t generalizing t' u with
  | node base target args ih =>
    cases unfolds with
    | refl => exact ⟨u, resolved, .refl u⟩
    | target exposed known free =>
      exact alike_of_target exposed type_declared known (declared_of_target declared known) free
        resolved
    | @args _ _ _ args' inside =>
      cases args with
      | nil =>
        cases inside
        exact ⟨u, resolved, .refl u⟩
      | cons arg args =>
        have applied : arg :: args ≠ [] := List.cons_ne_nil _ _
        have applied' : args' ≠ [] := by rintro rfl; cases inside
        rw [resolveIn_applied applied] at resolved
        obtain ⟨us, hus, h⟩ := bind_eq_ok.mp resolved
        cases h
        obtain ⟨us', hus', alike⟩ := mapM_related inside
          (fun a member a' unfolds u hu => ih a member (type_declared.arg member) unfolds hu) hus
        rw [resolveIn_applied applied']
        exact ⟨_, bind_eq_ok.mpr ⟨us', hus', rfl⟩, .args alike⟩

end SwiftCodec.Aliases
