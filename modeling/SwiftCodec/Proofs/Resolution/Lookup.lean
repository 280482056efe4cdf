import SwiftCodec.Proofs.Resolution.Steps

/-!
Which aliases resolution asks for. It looks up the names that a type has without arguments and goes
on to those that their targets have. So it resolves a type alike under two alias maps that give each
of these names the same target, whatever else they hold and in whatever order.
-/
namespace SwiftCodec

namespace Aliases

/-- A name that resolution of a type comes to: one that the type has without arguments, where no
type argument shadows it, or one that the target of such a name has. It need not be that of an
alias, for another map may have one. -/
inductive Consulted (m : Aliases) (params : List String) (t : TypeExpr) : String → Prop where
  | here {name : String} (leaf : name ∈ t.leaves) (exposed : name ∉ params) :
      Consulted m params t name
  | target {name next : String} {u : TypeExpr} (before : Consulted m params t name)
      (known : m.target? name = some u) (leaf : next ∈ u.leaves) : Consulted m params t next

/-- Names that resolution does not leave: with each of them, those in its target. -/
def Closed (m : Aliases) (S : String → Prop) : Prop :=
  ∀ name u, S name → m.target? name = some u → ∀ next ∈ u.leaves, S next

variable {m m' : Aliases} {S : String → Prop} {params chain : List String}

/-- What an alias map has under the name of a marker makes no difference. -/
theorem target?_congr {name : String}
    (same : Marker.named? name = none → m.find? name = m'.find? name) :
    m.target? name = m'.target? name := by
  unfold target?
  split
  · rfl
  · rename_i unmarked
    exact same (by simpa using unmarked)

theorem closed_consulted (m : Aliases) (params : List String) (t : TypeExpr) :
    m.Closed (m.Consulted params t) := fun _ _ before known _ leaf => .target before known leaf

/-- The names that are consulted are the fewest that are closed. -/
theorem Consulted.inside {t : TypeExpr} (closed : m.Closed S)
    (start : ∀ name ∈ t.leaves, name ∉ params → S name) {name : String}
    (consulted : m.Consulted params t name) : S name := by
  induction consulted with
  | here leaf exposed => exact start _ leaf exposed
  | target _ known leaf ih => exact closed _ _ ih known _ leaf

theorem follow_congr (closed : m.Closed S)
    (same : ∀ name, S name → m.target? name = m'.target? name) {name : String} (inside : S name) :
    m.follow chain name = m'.follow chain name := by
  fun_induction follow m chain name with
  | case1 chain name unknown =>
    rw [same name inside] at unknown
    exact (follow_unknown unknown).symm
  | case2 chain name t known repeated =>
    rw [same name inside] at known
    rw [follow_eq, known]
    exact (if_pos (by simpa using repeated)).symm
  | case3 chain name t known fresh plain ih =>
    have next : S t.base := closed name t inside known t.base (TypeExpr.base_mem_leaves plain)
    rw [same name inside] at known
    rw [follow_plain known (by simpa using fresh) plain, ih next]
  | case4 chain name t known fresh applied =>
    rw [same name inside] at known
    exact (follow_applied known (by simpa using fresh) applied).symm

theorem inside_of_follow (closed : m.Closed S) {name : String} (inside : S name)
    {chain' : List String} {end? : Option TypeExpr}
    (reached : m.follow chain name = .ok (chain', end?)) {t : TypeExpr} (ends : end? = some t) :
    ∀ next ∈ t.leaves, S next := by
  fun_induction follow m chain name generalizing chain' end? with
  | case1 => cases reached; cases ends
  | case2 => cases reached
  | case3 chain name u known fresh plain ih =>
    have here := closed name u inside known
    obtain ⟨⟨further, end?⟩, hfurther, h⟩ := bind_eq_ok.mp reached
    cases h
    cases end? with
    | none => cases ends; exact here
    | some _ => exact ih (here u.base (TypeExpr.base_mem_leaves plain)) hfurther ends
  | case4 chain name u known =>
    cases reached
    cases ends
    exact closed name _ inside known

theorem resolveIn_closed (closed : m.Closed S)
    (same : ∀ name, S name → m.target? name = m'.target? name) {t : TypeExpr}
    (start : ∀ name ∈ t.leaves, name ∉ params → S name) :
    m.resolveIn params chain t = m'.resolveIn params chain t := by
  induction params, chain, t using resolve_induction m with
  | name params chain base target ih =>
    by_cases shadowed : base ∈ params
    · rw [resolveIn_shadowed shadowed, resolveIn_shadowed shadowed]
    have inside : S base := start base (by simp) shadowed
    rw [resolveIn_name shadowed, resolveIn_name shadowed, ← follow_congr closed same inside]
    cases reached : m.follow chain base with
    | error d => rfl
    | ok result =>
      obtain ⟨chain', end?⟩ := result
      match end? with
      | none => rfl
      | some ⟨_, _, []⟩ => rfl
      | some ⟨final, final?, arg :: args⟩ =>
        -- The target stands outside of any struct, so all of its names are looked up.
        have further := inside_of_follow closed inside reached rfl
        have arguments : ∀ a ∈ arg :: args, m.resolveIn [] chain' a = m'.resolveIn [] chain' a :=
          fun a member => ih chain' _ reached a member fun name leaf _ =>
            further name ((TypeExpr.mem_leaves_node (List.cons_ne_nil arg args)).mpr
              ⟨a, member, leaf⟩)
        simp only [bind, Except.bind, replace, mapM_congr arguments]
  | applied params chain base target args applied ih =>
    have arguments : ∀ a ∈ args, m.resolveIn params chain a = m'.resolveIn params chain a :=
      fun a member => ih a member fun name leaf =>
        start name ((TypeExpr.mem_leaves_node applied).mpr ⟨a, member, leaf⟩)
    rw [resolveIn_applied applied, resolveIn_applied applied, mapM_congr arguments]

/-- Resolution of a type depends on the targets of the names that it consults, and on no other. -/
theorem resolveIn_congr {t : TypeExpr}
    (same : ∀ name, m.Consulted params t name → m.target? name = m'.target? name) :
    m.resolveIn params chain t = m'.resolveIn params chain t :=
  resolveIn_closed (closed_consulted m params t) same fun _ => .here

end Aliases

namespace Registry

variable {r r' : Registry}

theorem resolveStruct_congr {s : StructDecl}
    (same : ∀ f ∈ s.fields, ∀ name, r.aliases.Consulted s.parameters f.type name →
      r.aliases.target? name = r'.aliases.target? name) :
    r.resolveStruct s = r'.resolveStruct s := by
  unfold resolveStruct
  refine congrArg (· >>= _) (mapM_congr fun f field => ?_)
  rw [Aliases.resolveIn_congr (same f field)]

theorem resolveEnum_congr {e : EnumDecl}
    (same : ∀ name, r.aliases.Consulted [] (.named e.rawType) name →
      r.aliases.target? name = r'.aliases.target? name) : r.resolveEnum e = r'.resolveEnum e := by
  rw [resolveEnum, resolveEnum, Aliases.resolve, Aliases.resolve, Aliases.resolveIn_congr same]

end Registry

end SwiftCodec
