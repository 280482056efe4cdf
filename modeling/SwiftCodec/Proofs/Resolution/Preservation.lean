import SwiftCodec.Proofs.Resolution.Steps
import SwiftCodec.Proofs.TypeExpr.Validity

/-!
Resolution keeps types valid, given that the targets of aliases are. A node that stays has as many
arguments as it had, and so has a node that comes from a target.
-/
namespace SwiftCodec.Aliases

variable {m : Aliases}

theorem exists_target_of_follow {chain chain' : List String} {name : String} {t : TypeExpr}
    {end? : Option TypeExpr} (reached : m.follow chain name = .ok (chain', end?))
    (ends : end? = some t) : ∃ a, m.target? a = some t := by
  fun_induction follow m chain name generalizing chain' end? with
  | case1 => cases reached; cases ends
  | case2 => cases reached
  | case3 chain name u known fresh _ ih =>
    obtain ⟨⟨further, end?⟩, hfurther, h⟩ := bind_eq_ok.mp reached
    cases h
    cases end? with
    | none => cases ends; exact ⟨name, known⟩
    | some _ => exact ih hfurther ends
  | case4 chain name u known =>
    cases reached
    cases ends
    exact ⟨name, known⟩

/-- Whatever has the name of a valid type and as many arguments, all of them valid, is valid. -/
theorem valid_of_args {base : String} {target target' : Option String} {args args' : List TypeExpr}
    (valid : TypeExpr.validate ⟨base, target, args⟩ = .ok ()) (length : args'.length = args.length)
    (inside : ∀ a ∈ args', a.validate = .ok ()) :
    TypeExpr.validate ⟨base, target', args'⟩ = .ok () := by
  obtain ⟨dotted, shaped, _⟩ := TypeExpr.validate_eq_ok.mp valid
  refine TypeExpr.validate_eq_ok.mpr ⟨dotted, ?_, inside⟩
  rw [TypeExpr.shaped_iff] at shaped ⊢
  simpa [length] using shaped

theorem valid_of_resolved_args {params chain : List String} {base : String}
    {target target' : Option String} {args us : List TypeExpr}
    (valid : TypeExpr.validate ⟨base, target, args⟩ = .ok ())
    (step : ∀ a ∈ args, a.validate = .ok () →
      ∀ u, m.resolveIn params chain a = .ok u → u.validate = .ok ())
    (resolved : args.mapM (m.resolveIn params chain) = .ok us) :
    TypeExpr.validate ⟨base, target', us⟩ = .ok () := by
  have inside := (TypeExpr.validate_eq_ok.mp valid).2.2
  have each := mapM_eq_ok.mp resolved
  refine valid_of_args valid each.length_eq.symm fun u member => ?_
  obtain ⟨a, arg, hu⟩ := exists_of_forall₂ each.flip member
  exact step a arg (inside a arg) u hu

theorem valid_resolveIn (targets : ∀ name t, m.target? name = some t → t.validate = .ok ())
    {params chain : List String} {t u : TypeExpr} (valid : t.validate = .ok ())
    (resolved : m.resolveIn params chain t = .ok u) : u.validate = .ok () := by
  induction params, chain, t using resolve_induction m generalizing u with
  | name params chain base target ih =>
    by_cases shadowed : base ∈ params
    · rw [resolveIn_shadowed shadowed] at resolved
      cases resolved
      exact valid
    rw [resolveIn_name shadowed] at resolved
    obtain ⟨⟨chain', end?⟩, reached, resolved⟩ := bind_eq_ok.mp resolved
    -- A name stays a name unless its targets end in a type with arguments.
    match end? with
    | none =>
      cases resolved
      exact valid
    | some ⟨_, _, []⟩ =>
      cases resolved
      exact valid_of_args valid rfl (List.forall_mem_nil _)
    | some ⟨final, _, arg :: args⟩ =>
      obtain ⟨us, hus, h⟩ := bind_eq_ok.mp resolved
      cases h
      obtain ⟨a, known⟩ := exists_target_of_follow reached rfl
      exact valid_of_resolved_args (targets a _ known)
        (fun a arg inside u hu => ih chain' _ reached a arg inside hu) hus
  | applied params chain base target args applied ih =>
    rw [resolveIn_applied applied] at resolved
    obtain ⟨us, hus, h⟩ := bind_eq_ok.mp resolved
    cases h
    exact valid_of_resolved_args valid (fun a arg inside u hu => ih a arg inside hu) hus

end SwiftCodec.Aliases
