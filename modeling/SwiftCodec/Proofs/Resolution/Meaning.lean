import SwiftCodec.Proofs.Resolution.Steps

/-!
What a name stands for. Resolution of a name comes to the one name that is reached from it through
the targets of aliases, be it that of a type with arguments.
-/
namespace SwiftCodec.Aliases

variable {m : Aliases} {chain : List String}

/-- Following a name from target to target ends in the other name. -/
inductive Means (m : Aliases) : String → String → Prop where
  | itself {name : String} (final : m.target? name = none) : Means m name name
  | through {name final : String} {t : TypeExpr} (known : m.target? name = some t)
      (plain : t.args = []) (further : Means m t.base final) : Means m name final
  | applied {name : String} {t : TypeExpr} (known : m.target? name = some t)
      (applied : t.args ≠ []) : Means m name t.base

theorem Means.unique {name a b : String} (first : m.Means name a) (second : m.Means name b) :
    a = b := by
  induction first with
  | itself final =>
    cases second with
    | itself => rfl
    | through known => cases final.symm.trans known
    | applied known => cases final.symm.trans known
  | through known plain _ ih =>
    cases second with
    | itself final => cases final.symm.trans known
    | through known' _ further =>
      cases known.symm.trans known'
      exact ih further
    | applied known' applied =>
      cases known.symm.trans known'
      exact absurd plain applied
  | applied known applied =>
    cases second with
    | itself final => cases final.symm.trans known
    | through known' plain =>
      cases known.symm.trans known'
      exact absurd plain applied
    | applied known' =>
      cases known.symm.trans known'
      rfl

theorem means_of_follow {name : String} {chain' : List String} {end? : Option TypeExpr}
    (reached : m.follow chain name = .ok (chain', end?)) :
    m.Means name ((end?.map (·.base)).getD name) := by
  fun_induction follow m chain name generalizing chain' end? with
  | case1 chain name unknown =>
    cases reached
    exact .itself unknown
  | case2 => cases reached
  | case3 chain name t known fresh plain ih =>
    obtain ⟨⟨further, end?⟩, hfurther, h⟩ := bind_eq_ok.mp reached
    cases h
    have rest : m.Means t.base ((end?.map (·.base)).getD t.base) := ih hfurther
    cases end? <;> exact .through known (List.isEmpty_iff.mp plain) rest
  | case4 chain name t known fresh applied =>
    cases reached
    exact .applied known (mt List.isEmpty_iff.mpr applied)

theorem means_of_resolve {name : String} {u : TypeExpr}
    (resolved : m.resolve (.named name) = .ok u) : m.Means name u.resolvedName := by
  rw [resolve, TypeExpr.named, resolveIn_name List.not_mem_nil] at resolved
  obtain ⟨⟨chain, end?⟩, reached, resolved⟩ := bind_eq_ok.mp resolved
  have means := means_of_follow reached
  match end? with
  | none => cases resolved; exact means
  | some ⟨_, _, []⟩ => cases resolved; exact means
  | some ⟨_, _, _ :: _⟩ =>
    obtain ⟨us, _, h⟩ := bind_eq_ok.mp resolved
    cases h
    exact means

end SwiftCodec.Aliases
