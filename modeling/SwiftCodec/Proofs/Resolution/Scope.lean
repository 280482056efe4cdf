import SwiftCodec.Proofs.Resolution.Steps

/-!
What resolution does not depend on. A chain only stops it: what succeeds under a chain succeeds,
with the same result, under a shorter one. Of the parameters only those matter that the type names
without arguments.
-/
namespace SwiftCodec.Aliases

variable {m : Aliases}

theorem follow_shorter {chain chain' shorter : List String} {name : String}
    {end? : Option TypeExpr} (reached : m.follow chain name = .ok (chain', end?))
    (fewer : shorter ⊆ chain) :
    ∃ shorter', m.follow shorter name = .ok (shorter', end?) ∧ shorter' ⊆ chain' := by
  fun_induction follow m chain name generalizing shorter chain' end? with
  | case1 chain name unknown =>
    cases reached
    exact ⟨shorter, follow_unknown unknown, fewer⟩
  | case2 => cases reached
  | case3 chain name t known fresh plain ih =>
    obtain ⟨⟨further, end?⟩, hfurther, h⟩ := bind_eq_ok.mp reached
    cases h
    obtain ⟨shorter', hshorter, fewer'⟩ := ih hfurther (List.cons_subset_cons name fewer)
    refine ⟨shorter', ?_, fewer'⟩
    rw [follow_plain known (fun member => fresh (fewer member)) plain, hshorter]
    rfl
  | case4 chain name t known fresh applied =>
    cases reached
    exact ⟨name :: shorter, follow_applied known (fun member => fresh (fewer member)) applied,
      List.cons_subset_cons name fewer⟩

/-- The aliases around a type can only make its resolution fail. -/
theorem resolveIn_shorter {params chain shorter : List String} {t u : TypeExpr}
    (resolved : m.resolveIn params chain t = .ok u) (fewer : shorter ⊆ chain) :
    m.resolveIn params shorter t = .ok u := by
  induction params, chain, t using resolve_induction m generalizing shorter u with
  | name params chain base target ih =>
    by_cases shadowed : base ∈ params
    · rw [resolveIn_shadowed shadowed] at resolved ⊢
      exact resolved
    rw [resolveIn_name shadowed] at resolved ⊢
    obtain ⟨⟨chain', end?⟩, reached, resolved⟩ := bind_eq_ok.mp resolved
    obtain ⟨shorter', hshorter, fewer'⟩ := follow_shorter reached fewer
    refine bind_eq_ok.mpr ⟨_, hshorter, ?_⟩
    match end? with
    | none => exact resolved
    | some ⟨_, _, []⟩ => exact resolved
    | some ⟨final, _, arg :: args⟩ =>
      obtain ⟨us, hus, h⟩ := bind_eq_ok.mp resolved
      have kept := mapM_ok_mono (fun a ha u hu => ih chain' _ reached a ha hu fewer') hus
      exact bind_eq_ok.mpr ⟨us, kept, h⟩
  | applied params chain base target args applied ih =>
    rw [resolveIn_applied applied] at resolved ⊢
    obtain ⟨us, hus, h⟩ := bind_eq_ok.mp resolved
    exact bind_eq_ok.mpr ⟨us, mapM_ok_mono (fun a ha u hu => ih a ha hu fewer) hus, h⟩

/-- Parameters that the type does not name have no part in its resolution. -/
theorem resolveIn_params {params params' chain : List String} {t : TypeExpr}
    (same : ∀ a ∈ t.leaves, a ∈ params ↔ a ∈ params') :
    m.resolveIn params chain t = m.resolveIn params' chain t := by
  induction t with
  | node base target args ih =>
    cases args with
    | nil =>
      by_cases shadowed : base ∈ params
      · rw [resolveIn_shadowed shadowed, resolveIn_shadowed ((same base (by simp)).mp shadowed)]
      · rw [resolveIn_name shadowed, resolveIn_name (mt (same base (by simp)).mpr shadowed)]
    | cons arg args =>
      have applied : arg :: args ≠ [] := List.cons_ne_nil _ _
      rw [resolveIn_applied applied, resolveIn_applied applied]
      congr 1
      refine mapM_congr fun a member => ih a member fun name leaf => same name ?_
      exact (TypeExpr.mem_leaves_node applied).mpr ⟨a, member, leaf⟩

end SwiftCodec.Aliases
