import SwiftCodec.Proofs.Resolution.Steps
import Mathlib.Logic.Relation

/-!
When resolution fails. One alias refers to the aliases that its target names without arguments;
resolution of a type fails exactly if a cycle of references can be reached from the type, and the
name it reports lies on one.

A chain holds names that lead to the one at hand. So a name that is met again leads to itself, and
conversely every name whose references end somewhere is resolved.
-/
namespace SwiftCodec.Aliases

open Relation (ReflTransGen TransGen)

/-- A type names an alias without arguments, and no type argument shadows it. -/
def Uses (m : Aliases) (params : List String) (t : TypeExpr) (name : String) : Prop :=
  name ∈ t.leaves ∧ name ∉ params ∧ (m.target? name).isSome

/-- The target of one alias uses the other. -/
def Refers (m : Aliases) (name next : String) : Prop :=
  ∃ t, m.target? name = some t ∧ m.Uses [] t next

/-- A name that leads back to itself by one expansion or more. -/
def OnCycle (m : Aliases) (name : String) : Prop := TransGen m.Refers name name

/-- A type uses an alias from which the other can be reached. -/
def Reaches (m : Aliases) (params : List String) (t : TypeExpr) (name : String) : Prop :=
  ∃ first, m.Uses params t first ∧ ReflTransGen m.Refers first name

variable {m : Aliases} {params chain : List String}

theorem uses_applied {base : String} {target : Option String} {args : List TypeExpr}
    (applied : args ≠ []) {name : String} :
    m.Uses params ⟨base, target, args⟩ name ↔ ∃ a ∈ args, m.Uses params a name := by
  simp only [Uses, TypeExpr.mem_leaves_node applied]
  constructor
  · rintro ⟨⟨a, member, leaf⟩, exposed⟩
    exact ⟨a, member, leaf, exposed⟩
  · rintro ⟨a, member, leaf, exposed⟩
    exact ⟨⟨a, member, leaf⟩, exposed⟩

theorem uses_of_arg {t a : TypeExpr} {name : String} (arg : a ∈ t.args)
    (used : m.Uses params a name) : m.Uses params t name := by
  obtain ⟨base, target, args⟩ := t
  exact (uses_applied (List.ne_nil_of_mem arg)).mpr ⟨a, arg, used⟩

/-- A target without arguments uses its own name and no other. -/
theorem uses_name {t : TypeExpr} (plain : t.args = []) {name : String} :
    m.Uses [] t name ↔ name = t.base ∧ (m.target? t.base).isSome := by
  obtain ⟨base, target, args⟩ := t
  cases plain
  simp only [Uses, TypeExpr.leaves_name, List.mem_singleton, List.not_mem_nil, not_false_eq_true,
    true_and]
  constructor
  · rintro ⟨rfl, known⟩; exact ⟨rfl, known⟩
  · rintro ⟨rfl, known⟩; exact ⟨rfl, known⟩

/-- The names of a chain lead to the name at hand, if that is an alias. -/
def LeadsTo (m : Aliases) (chain : List String) (name : String) : Prop :=
  (m.target? name).isSome → ∀ c ∈ chain, TransGen m.Refers c name

theorem leads_to_next {name : String} {t : TypeExpr} (known : m.target? name = some t)
    (behind : m.LeadsTo chain name) {next : String} (used : m.Uses [] t next) :
    ∀ c ∈ name :: chain, TransGen m.Refers c next := by
  have step : m.Refers name next := ⟨t, known, used⟩
  intro c member
  rcases List.mem_cons.mp member with rfl | member
  · exact .single step
  · exact (behind (by simp [known]) c member).tail step

/-- If following a name fails, the name reported lies on a cycle that can be reached. -/
theorem follow_error {name : String} {d : Defect} (behind : m.LeadsTo chain name)
    (failed : m.follow chain name = .error d) :
    (m.target? name).isSome ∧
      ∃ n, d = .aliasCycle n ∧ ReflTransGen m.Refers name n ∧ m.OnCycle n := by
  fun_induction follow m chain name with
  | case1 => cases failed
  | case2 chain name t known repeated =>
    cases failed
    exact ⟨by simp [known], name, rfl, .refl, behind (by simp [known]) name repeated⟩
  | case3 chain name t known fresh plain ih =>
    have base : t.args = [] := List.isEmpty_iff.mp plain
    refine ⟨by simp [known], ?_⟩
    rcases bind_eq_error.mp failed with further | ⟨_, _, h⟩
    · have ahead : m.LeadsTo (name :: chain) t.base := fun some c member =>
        leads_to_next known behind ((uses_name base).mpr ⟨rfl, some⟩) c member
      obtain ⟨some, n, rfl, path, cycle⟩ := ih ahead further
      exact ⟨n, rfl, .head ⟨t, known, (uses_name base).mpr ⟨rfl, some⟩⟩ path, cycle⟩
    · cases h
  | case4 => cases failed

/-- Following a name to a type puts the name on the chain, and all of the chain leads to what the
type uses. -/
theorem follow_ok {name : String} {chain' : List String} {end? : Option TypeExpr}
    (behind : m.LeadsTo chain name) (reached : m.follow chain name = .ok (chain', end?))
    {t : TypeExpr} (ends : end? = some t) :
    (m.target? name).isSome ∧ name ∈ chain' ∧ chain ⊆ chain' ∧
      ∀ next, m.Uses [] t next → ∀ c ∈ chain', TransGen m.Refers c next := by
  fun_induction follow m chain name generalizing chain' end? t with
  | case1 => cases reached; cases ends
  | case2 => cases reached
  | case3 chain name u known fresh plain ih =>
    have base : u.args = [] := List.isEmpty_iff.mp plain
    have ahead : m.LeadsTo (name :: chain) u.base := fun some c member =>
      leads_to_next known behind ((uses_name base).mpr ⟨rfl, some⟩) c member
    obtain ⟨⟨further, end?⟩, hfurther, h⟩ := bind_eq_ok.mp reached
    cases h
    cases end? with
    | none =>
      cases ends
      obtain ⟨_, rfl⟩ := follow_none hfurther
      exact ⟨by simp [known], List.mem_cons_self, fun _ => List.mem_cons_of_mem _,
        fun next used => leads_to_next known behind used⟩
    | some t' =>
      cases ends
      obtain ⟨_, _, grown, leads⟩ := ih ahead hfurther rfl
      exact ⟨by simp [known], grown List.mem_cons_self,
        fun c member => grown (List.mem_cons_of_mem _ member), leads⟩
  | case4 chain name u known =>
    cases reached
    cases ends
    exact ⟨by simp [known], List.mem_cons_self, fun _ => List.mem_cons_of_mem _,
      fun next used => leads_to_next known behind used⟩

/-- If resolution fails, the name it reports lies on a cycle that the type reaches. -/
theorem resolveIn_error {t : TypeExpr}
    (behind : ∀ name, m.Uses params t name → ∀ c ∈ chain, TransGen m.Refers c name) {d : Defect}
    (failed : m.resolveIn params chain t = .error d) :
    ∃ n, d = .aliasCycle n ∧ m.Reaches params t n ∧ m.OnCycle n := by
  induction params, chain, t using resolve_induction m with
  | name params chain base target ih =>
    by_cases shadowed : base ∈ params
    · rw [resolveIn_shadowed shadowed] at failed
      cases failed
    have leads : m.LeadsTo chain base := fun some =>
      behind base ⟨by simp, shadowed, some⟩
    rw [resolveIn_name shadowed] at failed
    rcases bind_eq_error.mp failed with broken | ⟨⟨chain', end?⟩, reached, failed⟩
    · obtain ⟨some, n, rfl, path, cycle⟩ := follow_error leads broken
      exact ⟨n, rfl, ⟨base, ⟨by simp, shadowed, some⟩, path⟩, cycle⟩
    · cases end? with
      | none => cases failed
      | some t =>
        obtain ⟨some, member, _, ahead⟩ := follow_ok leads reached rfl
        obtain ⟨final, target', args⟩ := t
        cases args with
        | nil => cases failed
        | cons arg args =>
          rcases bind_eq_error.mp failed with inside | ⟨_, _, h⟩
          · obtain ⟨a, ha, failed⟩ := exists_of_mapM_eq_error inside
            have below : ∀ name, m.Uses [] a name → ∀ c ∈ chain', TransGen m.Refers c name :=
              fun name used => ahead name (uses_of_arg ha used)
            obtain ⟨n, rfl, ⟨first, used, path⟩, cycle⟩ := ih chain' _ reached a ha below failed
            exact ⟨n, rfl, ⟨base, ⟨by simp, shadowed, some⟩,
              (below first used base member).to_reflTransGen.trans path⟩, cycle⟩
          · cases h
  | applied params chain base target args applied ih =>
    rw [resolveIn_applied applied] at failed
    rcases bind_eq_error.mp failed with inside | ⟨_, _, h⟩
    · obtain ⟨a, ha, failed⟩ := exists_of_mapM_eq_error inside
      obtain ⟨n, rfl, ⟨first, used, path⟩, cycle⟩ :=
        ih a ha (fun name used => behind name (uses_of_arg ha used)) failed
      exact ⟨n, rfl, ⟨first, uses_of_arg ha used, path⟩, cycle⟩
    · cases h

/-- An alias whose references all come to an end. -/
def Grounded (m : Aliases) (name : String) : Prop := Acc (fun next name => m.Refers name next) name

theorem grounded_of_follow {name : String} {chain' : List String} {end? : Option TypeExpr}
    (reached : m.follow chain name = .ok (chain', end?))
    (below : ∀ t, end? = some t → ∀ next, m.Uses [] t next → m.Grounded next) :
    m.Grounded name := by
  fun_induction follow m chain name generalizing chain' end? with
  | case1 chain name unknown =>
    refine .intro _ ?_
    rintro next ⟨t, known, _⟩
    cases unknown.symm.trans known
  | case2 => cases reached
  | case3 chain name u known fresh plain ih =>
    have base : u.args = [] := List.isEmpty_iff.mp plain
    obtain ⟨⟨further, end?⟩, hfurther, h⟩ := bind_eq_ok.mp reached
    cases h
    have next : m.Grounded u.base := by
      refine ih hfurther ?_
      rintro t rfl
      exact below t rfl
    refine .intro _ ?_
    rintro n ⟨t, known', used⟩
    cases known.symm.trans known'
    rw [((uses_name base).mp used).1]
    exact next
  | case4 chain name u known =>
    cases reached
    refine .intro _ ?_
    rintro next ⟨t, known', used⟩
    cases known.symm.trans known'
    exact below u rfl next used

/-- If resolution succeeds, the references of every alias that the type uses come to an end. -/
theorem grounded_of_resolveIn {t u : TypeExpr} (resolved : m.resolveIn params chain t = .ok u)
    {name : String} (used : m.Uses params t name) : m.Grounded name := by
  induction params, chain, t using resolve_induction m generalizing u name with
  | name params chain base target ih =>
    obtain ⟨leaf, exposed, some⟩ := used
    obtain rfl : name = base := by simpa using leaf
    rw [resolveIn_name exposed] at resolved
    obtain ⟨⟨chain', end?⟩, reached, resolved⟩ := bind_eq_ok.mp resolved
    refine grounded_of_follow reached ?_
    rintro ⟨final, target', args⟩ rfl next used
    cases args with
    | nil =>
      have unknown : m.target? final = none := follow_final reached rfl rfl
      have known := ((uses_name rfl).mp used).2
      simp [unknown] at known
    | cons arg args =>
      obtain ⟨us, hus, _⟩ := bind_eq_ok.mp resolved
      obtain ⟨a, ha, used⟩ := (uses_applied (List.cons_ne_nil _ _)).mp used
      obtain ⟨u, _, hu⟩ := exists_of_forall₂ (mapM_eq_ok.mp hus) ha
      exact ih chain' _ reached a ha hu used
  | applied params chain base target args applied ih =>
    rw [resolveIn_applied applied] at resolved
    obtain ⟨us, hus, _⟩ := bind_eq_ok.mp resolved
    obtain ⟨a, ha, used⟩ := (uses_applied applied).mp used
    obtain ⟨u, _, hu⟩ := exists_of_forall₂ (mapM_eq_ok.mp hus) ha
    exact ih a ha hu used

theorem not_onCycle {name : String} (grounded : m.Grounded name) : ¬ m.OnCycle name := by
  induction grounded with
  | intro name _ ih =>
    intro cycle
    obtain ⟨next, step, back⟩ := TransGen.head'_iff.mp cycle
    exact ih next step (TransGen.tail' back step)

theorem grounded_of_path {name next : String} (grounded : m.Grounded name)
    (path : ReflTransGen m.Refers name next) : m.Grounded next := by
  induction path with
  | refl => exact grounded
  | tail _ step ih => exact ih.inv step

/-- The arguments of a type do not disturb one another. -/
theorem applied_fails_iff {base : String} {target : Option String} {args : List TypeExpr}
    (applied : args ≠ []) :
    Fails (m.resolveIn params chain ⟨base, target, args⟩) ↔
      ∃ a ∈ args, Fails (m.resolveIn params chain a) := by
  rw [resolveIn_applied applied, fails_bind_ok, fails_mapM]

theorem fails_iff_aliasCycle {t : TypeExpr} :
    Fails (m.resolveIn params [] t) ↔
      ∃ n, m.resolveIn params [] t = .error (.aliasCycle n) := by
  constructor
  · rintro ⟨d, failed⟩
    obtain ⟨n, rfl, _⟩ := resolveIn_error (by simp) failed
    exact ⟨n, failed⟩
  · rintro ⟨n, failed⟩
    exact ⟨_, failed⟩

/-- Resolution ends, with a type or with a cycle. It is a cycle exactly if the type reaches one,
and then the name reported is on it. A type with arguments fails only if one of them fails on its
own, so an alias used many times side by side is no cycle. -/
theorem resolution_fails_iff_cycle (m : Aliases) (params : List String) (t : TypeExpr) :
    ((∃ u, m.resolveIn params [] t = .ok u) ∨
      ∃ n, m.resolveIn params [] t = .error (.aliasCycle n)) ∧
    ((∃ n, m.resolveIn params [] t = .error (.aliasCycle n)) ↔
      ∃ n, m.Reaches params t n ∧ m.OnCycle n) ∧
    (∀ n, m.resolveIn params [] t = .error (.aliasCycle n) →
      m.Reaches params t n ∧ m.OnCycle n) ∧
    ∀ base target arg args,
      (∃ n, m.resolveIn params [] ⟨base, target, arg :: args⟩ = .error (.aliasCycle n)) ↔
        ∃ a ∈ arg :: args, ∃ n, m.resolveIn params [] a = .error (.aliasCycle n) := by
  have ends : (∃ u, m.resolveIn params [] t = .ok u) ∨
      ∃ n, m.resolveIn params [] t = .error (.aliasCycle n) := by
    cases outcome : m.resolveIn params [] t with
    | ok u => exact .inl ⟨u, rfl⟩
    | error d => exact .inr (outcome ▸ fails_iff_aliasCycle.mp ⟨d, outcome⟩)
  have on_cycle (n : String) (failed : m.resolveIn params [] t = .error (.aliasCycle n)) :
      m.Reaches params t n ∧ m.OnCycle n := by
    obtain ⟨n', same, found⟩ := resolveIn_error (by simp) failed
    cases same
    exact found
  refine ⟨ends, ⟨fun ⟨n, failed⟩ => ⟨n, on_cycle n failed⟩, ?_⟩, on_cycle, ?_⟩
  · rintro ⟨n, ⟨first, used, path⟩, cycle⟩
    rcases ends with ⟨u, resolved⟩ | failed
    · exact absurd cycle (not_onCycle (grounded_of_path (grounded_of_resolveIn resolved used) path))
    · exact failed
  · intro base target arg args
    rw [← fails_iff_aliasCycle, applied_fails_iff (List.cons_ne_nil arg args)]
    simp only [fails_iff_aliasCycle]

end SwiftCodec.Aliases
