import SwiftCodec.Proofs.Resolution.Preservation

/-!
Where the nodes of a resolved type come from. Each of them stems from one node that was written, in
the type itself or in the target of an alias. That node has the name under which the resolved one is
coded and as many arguments, and it is no use of an alias.
-/
namespace SwiftCodec.Aliases

variable {m : Aliases} {params chain : List String}

/-- A node is written in the type at hand, in the scope of type arguments, or in the target of an
alias, which is outside any. -/
inductive WrittenIn (m : Aliases) (params : List String) (t : TypeExpr) :
    List String → TypeExpr → Prop where
  | here {w : TypeExpr} (node : w ∈ t.nodes) : WrittenIn m params t params w
  | target {name : String} {u w : TypeExpr} (known : m.target? name = some u) (node : w ∈ u.nodes) :
      WrittenIn m params t [] w

/-- No alias is used by the node: it has arguments, or the name is that of a type argument or of no
alias. -/
def Direct (m : Aliases) (scope : List String) (w : TypeExpr) : Prop :=
  w.args = [] → w.base ∈ scope ∨ m.target? w.base = none

/-- A resolved node and the written one that it stems from. -/
structure Origin (m : Aliases) (params : List String) (t n : TypeExpr) (scope : List String)
    (w : TypeExpr) : Prop where
  written : m.WrittenIn params t scope w
  direct : m.Direct scope w
  name : w.base = n.resolvedName
  arguments : w.args.length = n.args.length

theorem Origin.of_arg {t a n w : TypeExpr} {scope : List String} (arg : a ∈ t.args)
    (stems : m.Origin params a n scope w) : m.Origin params t n scope w := by
  refine { stems with written := ?_ }
  cases stems.written with
  | here node => exact .here (TypeExpr.mem_nodes_of_arg arg node)
  | target known node => exact .target known node

/-- What is written in a target of an alias is so in any type. -/
theorem Origin.of_target {name : String} {t u n w : TypeExpr} {scope : List String}
    (known : m.target? name = some u) (stems : m.Origin [] u n scope w) :
    m.Origin params t n scope w := by
  refine { stems with written := ?_ }
  cases stems.written with
  | here node => exact .target known node
  | target known' node => exact .target known' node

theorem origin_of_args {t : TypeExpr} {us : List TypeExpr}
    (resolved : t.args.mapM (m.resolveIn params chain) = .ok us)
    (step : ∀ a ∈ t.args, ∀ u, m.resolveIn params chain a = .ok u →
      ∀ n ∈ u.nodes, ∃ scope w, m.Origin params a n scope w) :
    ∀ u ∈ us, ∀ n ∈ u.nodes, ∃ scope w, m.Origin params t n scope w := by
  intro u member n node
  obtain ⟨a, arg, hu⟩ := exists_of_forall₂ (mapM_eq_ok.mp resolved).flip member
  obtain ⟨scope, w, stems⟩ := step a arg u hu n node
  exact ⟨scope, w, stems.of_arg arg⟩

theorem exists_origin (targets : ∀ name t, m.target? name = some t → t.Written) {t u : TypeExpr}
    (written : t.Written) (resolved : m.resolveIn params chain t = .ok u) :
    ∀ n ∈ u.nodes, ∃ scope w, m.Origin params t n scope w := by
  induction params, chain, t using resolve_induction m generalizing u with
  | name params chain base target ih =>
    obtain rfl : target = none := written.target_eq
    have self : (⟨base, none, []⟩ : TypeExpr) ∈ TypeExpr.nodes ⟨base, none, []⟩ :=
      TypeExpr.self_mem_nodes _
    -- A name that stays, whatever it comes to stand for, has no nodes but itself.
    have stays {target' : Option String} {scope : List String} {w : TypeExpr}
        (stems : m.Origin params ⟨base, none, []⟩ ⟨base, target', []⟩ scope w) :
        ∀ n ∈ TypeExpr.nodes ⟨base, target', []⟩,
          ∃ scope w, m.Origin params ⟨base, none, []⟩ n scope w := by
      intro n node
      rcases TypeExpr.mem_nodes.mp node with rfl | ⟨a, arg, _⟩
      · exact ⟨scope, w, stems⟩
      · cases arg
    by_cases shadowed : base ∈ params
    · rw [resolveIn_shadowed shadowed] at resolved
      cases resolved
      exact stays ⟨.here self, fun _ => .inl shadowed, rfl, rfl⟩
    rw [resolveIn_name shadowed] at resolved
    obtain ⟨⟨chain', end?⟩, reached, resolved⟩ := bind_eq_ok.mp resolved
    match end? with
    | none =>
      cases resolved
      exact stays ⟨.here self, fun _ => .inr (follow_none reached).1, rfl, rfl⟩
    | some ⟨final, final?, []⟩ =>
      obtain ⟨a, known⟩ := exists_target_of_follow reached rfl
      cases resolved
      exact stays ⟨.target known (TypeExpr.self_mem_nodes _),
        fun _ => .inr (follow_final reached rfl rfl), rfl, rfl⟩
    | some ⟨final, final?, arg :: args⟩ =>
      obtain ⟨a, known⟩ := exists_target_of_follow reached rfl
      have spelled := targets a _ known
      obtain ⟨us, hus, h⟩ := bind_eq_ok.mp resolved
      cases h
      intro n node
      rcases TypeExpr.mem_nodes.mp node with rfl | ⟨u, member, inside⟩
      · refine ⟨[], _, .target known (TypeExpr.self_mem_nodes _), fun plain => ?_, rfl, ?_⟩
        · cases plain
        · exact (mapM_eq_ok.mp hus).length_eq
      · obtain ⟨scope, w, stems⟩ := origin_of_args (t := ⟨final, final?, arg :: args⟩) hus
          (fun a arg u hu => ih chain' _ reached a arg (spelled.arg arg) hu) u member n inside
        exact ⟨scope, w, stems.of_target known⟩
  | applied params chain base target args applied ih =>
    obtain rfl : target = none := written.target_eq
    rw [resolveIn_applied applied] at resolved
    obtain ⟨us, hus, h⟩ := bind_eq_ok.mp resolved
    cases h
    intro n node
    rcases TypeExpr.mem_nodes.mp node with rfl | ⟨u, member, inside⟩
    · exact ⟨params, _, .here (TypeExpr.self_mem_nodes _), fun plain => absurd plain applied, rfl,
        (mapM_eq_ok.mp hus).length_eq⟩
    · exact origin_of_args (t := ⟨base, none, args⟩) hus
        (fun a arg u hu => ih a arg (written.arg arg) hu) u member n inside

end SwiftCodec.Aliases
