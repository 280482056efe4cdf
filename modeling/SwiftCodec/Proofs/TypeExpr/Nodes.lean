import SwiftCodec.TypeExpr.Basic

/-!
The nodes of a type: the type itself and, inside its arguments, every further one. What holds of a
node and follows from its arguments holds of every type.
-/
namespace SwiftCodec.TypeExpr

/-- A type is built from its arguments, and from nothing else. -/
@[elab_as_elim, induction_eliminator]
theorem induct {motive : TypeExpr → Prop}
    (node : ∀ base target args, (∀ a ∈ args, motive a) → motive ⟨base, target, args⟩) :
    ∀ t, motive t
  | ⟨base, target, args⟩ => node base target args fun a _ => induct node a

mutual
/-- A type and all types inside it, from left to right. -/
def nodes : TypeExpr → List TypeExpr
  | ⟨base, target, args⟩ => ⟨base, target, args⟩ :: nodesAll args
termination_by structural t => t
def nodesAll : List TypeExpr → List TypeExpr
  | [] => []
  | t :: ts => nodes t ++ nodesAll ts
termination_by structural ts => ts
end

theorem nodesAll_eq_flatMap (ts : List TypeExpr) : nodesAll ts = ts.flatMap nodes := by
  induction ts with
  | nil => rfl
  | cons t ts ih => simp [nodesAll, ih]

theorem mem_nodes {n t : TypeExpr} : n ∈ t.nodes ↔ n = t ∨ ∃ a ∈ t.args, n ∈ a.nodes := by
  cases t
  simp [nodes, nodesAll_eq_flatMap]

theorem self_mem_nodes (t : TypeExpr) : t ∈ t.nodes := mem_nodes.mpr (.inl rfl)

theorem mem_nodes_of_arg {t a n : TypeExpr} (arg : a ∈ t.args) (inside : n ∈ a.nodes) :
    n ∈ t.nodes := mem_nodes.mpr (.inr ⟨a, arg, inside⟩)

/-- The names in a type, at every node. -/
def names (t : TypeExpr) : List String := t.nodes.map (·.base)

/-- The names in a type that carry no arguments: those that may name an alias. -/
def leaves (t : TypeExpr) : List String := (t.nodes.filter (·.args.isEmpty)).map (·.base)

@[simp] theorem leaves_name (base : String) (target : Option String) :
    leaves ⟨base, target, []⟩ = [base] := rfl

theorem base_mem_leaves {t : TypeExpr} (plain : t.args.isEmpty) : t.base ∈ t.leaves := by
  obtain ⟨base, target, args⟩ := t
  obtain rfl : args = [] := List.isEmpty_iff.mp plain
  exact List.mem_singleton_self base

theorem mem_leaves_node {a base : String} {target : Option String} {args : List TypeExpr}
    (applied : args ≠ []) : a ∈ leaves ⟨base, target, args⟩ ↔ ∃ arg ∈ args, a ∈ arg.leaves := by
  simp only [leaves, nodes, nodesAll_eq_flatMap, List.filter_cons, List.isEmpty_iff, applied,
    if_false, List.mem_map, List.mem_filter, List.mem_flatMap]
  constructor
  · rintro ⟨n, ⟨⟨arg, member, inside⟩, leaf⟩, rfl⟩
    exact ⟨arg, member, n, ⟨inside, leaf⟩, rfl⟩
  · rintro ⟨arg, member, n, ⟨inside, leaf⟩, rfl⟩
    exact ⟨n, ⟨⟨arg, member, inside⟩, leaf⟩, rfl⟩

theorem names_of_leaves {a : String} {t : TypeExpr} (h : a ∈ t.leaves) : a ∈ t.names := by
  obtain ⟨n, member, rfl⟩ := List.mem_map.mp h
  exact List.mem_map.mpr ⟨n, (List.mem_filter.mp member).1, rfl⟩

/-- A type as a declaration has it: no alias in it has been followed yet. -/
def Written (t : TypeExpr) : Prop := ∀ n ∈ t.nodes, n.target = none

instance (t : TypeExpr) : Decidable t.Written := inferInstanceAs (Decidable (∀ n ∈ t.nodes, _))

theorem Written.target_eq {t : TypeExpr} (h : t.Written) : t.target = none :=
  h t t.self_mem_nodes

theorem Written.arg {t a : TypeExpr} (h : t.Written) (arg : a ∈ t.args) : a.Written :=
  fun n inside => h n (mem_nodes_of_arg arg inside)

end SwiftCodec.TypeExpr
