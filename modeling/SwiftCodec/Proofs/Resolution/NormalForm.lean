import SwiftCodec.Proofs.Registry.Resolving
import SwiftCodec.Proofs.Resolution.Preservation
import SwiftCodec.Proofs.Resolution.Scope

/-!
What resolution comes to. It is done after one pass: a second one, even inside a struct with more
type arguments, changes nothing. In a type that was written without recorded targets every name is
followed to its end, so that a name that is left is that of a type argument or of no alias.
-/
namespace SwiftCodec

namespace Aliases

/-- A name that is not followed any further. -/
def Final (m : Aliases) (name : String) : Prop :=
  (Marker.named? name).isSome ∨ m.find? name = none

/-- Every name in a type that carries no arguments is that of a type argument, or stands for a
final one. -/
def Settled (m : Aliases) (params : List String) (t : TypeExpr) : Prop :=
  ∀ n ∈ t.nodes, n.args = [] → n.base ∈ params ∨ m.Final n.resolvedName

variable {m : Aliases} {params chain : List String}

theorem target?_eq_none {name : String} : m.target? name = none ↔ m.Final name := by
  unfold target? Final
  split_ifs with marker <;> simp [marker]

theorem settled_name {base : String} {target : Option String} :
    m.Settled params ⟨base, target, []⟩ ↔
      base ∈ params ∨ m.target? (TypeExpr.resolvedName ⟨base, target, []⟩) = none := by
  rw [target?_eq_none]
  constructor
  · intro settled
    exact settled _ (TypeExpr.self_mem_nodes _) rfl
  · intro final n member _
    rcases TypeExpr.mem_nodes.mp member with rfl | ⟨a, arg, _⟩
    · exact final
    · cases arg

theorem settled_applied {base : String} {target : Option String} {args : List TypeExpr}
    (applied : args ≠ []) (inside : ∀ a ∈ args, m.Settled params a) :
    m.Settled params ⟨base, target, args⟩ := by
  intro n member plain
  rcases TypeExpr.mem_nodes.mp member with rfl | ⟨a, arg, below⟩
  · exact absurd plain applied
  · exact inside a arg n below plain

theorem Settled.mono {params' : List String} {t : TypeExpr} (settled : m.Settled params t)
    (more : params ⊆ params') : m.Settled params' t :=
  fun n member plain => (settled n member plain).imp_left (more ·)

theorem resolved_args_ne_nil {args us : List TypeExpr} (applied : args ≠ [])
    (resolved : args.mapM (m.resolveIn params chain) = .ok us) : us ≠ [] := by
  rintro rfl
  cases mapM_eq_ok.mp resolved
  exact applied rfl

/-- The arguments of a target have been resolved where no type argument shadows anything. That some
do in the place to which the target has come makes no difference: what they shadow stays. -/
theorem resolveIn_resolved {t u : TypeExpr} (resolved : m.resolveIn params chain t = .ok u)
    {params' : List String} (more : params ⊆ params') : m.resolveIn params' [] u = .ok u := by
  induction params, chain, t using resolve_induction m generalizing u with
  | name params chain base target ih =>
    by_cases shadowed : base ∈ params
    · rw [resolveIn_shadowed shadowed] at resolved
      cases resolved
      exact resolveIn_shadowed (more shadowed)
    rw [resolveIn_name shadowed] at resolved
    obtain ⟨⟨chain', end?⟩, reached, resolved⟩ := bind_eq_ok.mp resolved
    obtain ⟨again, reached', _⟩ := follow_shorter reached (List.nil_subset chain)
    -- A name that has stayed is followed to the same end, or shadowed by now.
    have stays {target' : Option String}
        (kept : m.replace base target' again end? = .ok ⟨base, target', []⟩) :
        m.resolveIn params' [] ⟨base, target', []⟩ = .ok ⟨base, target', []⟩ := by
      by_cases shadowed' : base ∈ params'
      · exact resolveIn_shadowed shadowed'
      · rw [resolveIn_name shadowed', reached']
        exact kept
    match end? with
    | none =>
      cases resolved
      exact stays rfl
    | some ⟨final, _, []⟩ =>
      cases resolved
      exact stays rfl
    | some ⟨final, _, arg :: args⟩ =>
      obtain ⟨us, hus, h⟩ := bind_eq_ok.mp resolved
      cases h
      have settled : us.mapM (m.resolveIn params' []) = .ok us :=
        mapM_results hus fun a arg u hu => ih chain' _ reached a arg hu (List.nil_subset _)
      rw [resolveIn_applied (resolved_args_ne_nil (List.cons_ne_nil _ _) hus), settled]
      rfl
  | applied params chain base target args applied ih =>
    rw [resolveIn_applied applied] at resolved
    obtain ⟨us, hus, h⟩ := bind_eq_ok.mp resolved
    cases h
    have settled : us.mapM (m.resolveIn params' []) = .ok us :=
      mapM_results hus fun a arg u hu => ih a arg hu more
    rw [resolveIn_applied (resolved_args_ne_nil applied hus), settled]
    rfl

theorem settled_of_args {args us : List TypeExpr}
    (resolved : args.mapM (m.resolveIn params chain) = .ok us)
    (step : ∀ a ∈ args, ∀ u, m.resolveIn params chain a = .ok u → m.Settled params u) :
    ∀ u ∈ us, m.Settled params u := by
  intro u member
  obtain ⟨a, arg, hu⟩ := exists_of_forall₂ (mapM_eq_ok.mp resolved).flip member
  exact step a arg u hu

/-- Chains of aliases are followed to their end, at every depth. -/
theorem settled_resolveIn (targets : ∀ name t, m.target? name = some t → t.Written)
    {t u : TypeExpr} (written : t.Written) (resolved : m.resolveIn params chain t = .ok u) :
    m.Settled params u := by
  induction params, chain, t using resolve_induction m generalizing u with
  | name params chain base target ih =>
    obtain rfl : target = none := written.target_eq
    by_cases shadowed : base ∈ params
    · rw [resolveIn_shadowed shadowed] at resolved
      cases resolved
      exact settled_name.mpr (.inl shadowed)
    rw [resolveIn_name shadowed] at resolved
    obtain ⟨⟨chain', end?⟩, reached, resolved⟩ := bind_eq_ok.mp resolved
    match end? with
    | none =>
      cases resolved
      exact settled_name.mpr (.inr (follow_none reached).1)
    | some ⟨final, _, []⟩ =>
      cases resolved
      exact settled_name.mpr (.inr (follow_final reached rfl rfl))
    | some ⟨final, _, arg :: args⟩ =>
      obtain ⟨us, hus, h⟩ := bind_eq_ok.mp resolved
      cases h
      obtain ⟨name, known⟩ := exists_target_of_follow reached rfl
      have inside := settled_of_args hus fun a member u hu =>
        ih chain' _ reached a member ((targets name _ known).arg member) hu
      exact settled_applied (resolved_args_ne_nil (List.cons_ne_nil _ _) hus)
        fun u member => (inside u member).mono (List.nil_subset _)
  | applied params chain base target args applied ih =>
    rw [resolveIn_applied applied] at resolved
    obtain ⟨us, hus, h⟩ := bind_eq_ok.mp resolved
    cases h
    exact settled_applied (resolved_args_ne_nil applied hus)
      (settled_of_args hus fun a member u hu => ih a member (written.arg member) hu)

end Aliases

/-- A resolved struct resolves to itself. Only the types of fields differ from those of the struct
as it was: its name, its type arguments, the names of the fields and what is declared inside it
stay. The types are settled if nothing was recorded in them. -/
theorem resolution_settles {r : Registry} {s s' : StructDecl}
    (resolved : r.resolveStruct s = .ok s') :
    r.resolveStruct s' = .ok s' ∧
    (∃ fields, s' = { s with fields := fields } ∧
      List.Forall₂ (fun f f' => f'.name = f.name) s.fields fields) ∧
    ((∀ f ∈ s.fields, f.type.Written) → (∀ e ∈ r.aliases.entries, e.2.Written) →
      ∀ f ∈ s'.fields, r.aliases.Settled s.parameters f.type) := by
  obtain ⟨fields, hfields, h⟩ := bind_eq_ok.mp resolved
  cases h
  have each := mapM_eq_ok.mp hfields
  have named : List.Forall₂ (fun f f' : Field => f'.name = f.name) s.fields fields := by
    refine each.imp fun f f' hf => ?_
    obtain ⟨u, _, h⟩ := bind_eq_ok.mp hf
    cases h
    rfl
  refine ⟨?_, ⟨fields, rfl, named⟩, fun written targets f' member => ?_⟩
  · have again := mapM_results hfields (g := fun f => do
      .ok { f with type := ← r.aliases.resolveIn s.parameters [] f.type }) fun f _ f' hf => by
        obtain ⟨u, hu, h⟩ := bind_eq_ok.mp hf
        cases h
        exact bind_eq_ok.mpr ⟨u, Aliases.resolveIn_resolved hu (List.Subset.refl _), rfl⟩
    exact bind_eq_ok.mpr ⟨fields, again, rfl⟩
  · obtain ⟨f, declared, hf⟩ := exists_of_forall₂ each.flip member
    obtain ⟨u, hu, h⟩ := bind_eq_ok.mp hf
    cases h
    have known (name : String) (t : TypeExpr) (found : r.aliases.target? name = some t) :
        t.Written := targets _ (Aliases.mem_entries_of_target? found)
    exact Aliases.settled_resolveIn known (written f declared) hu

theorem resolution_settles_box :
    let r : Registry := { aliases := ⟨[("Ids", .array (.named "Id")), ("Id", .named "Name"),
      ("Name", .named "String"), ("T", .named "Int")]⟩ }
    let nested : List Declaration :=
      [.struct { name := "Tag", fields := [⟨"ids", .named "Ids"⟩] }, .enum ⟨"Kind", "Id"⟩ []]
    let s : StructDecl :=
      ⟨"Box", ["T"], [⟨"ids", .optional (.named "Ids")⟩, ⟨"value", .named "T"⟩], nested⟩
    let s' : StructDecl :=
      ⟨"Box", ["T"],
        [⟨"ids", .optional (.array ⟨"Id", some "String", []⟩)⟩, ⟨"value", .named "T"⟩], nested⟩
    r.resolveStruct s = .ok s' ∧ (∀ f ∈ s.fields, f.type.Written) ∧
      (∀ e ∈ r.aliases.entries, e.2.Written) ∧ r.resolveStruct s' = .ok s' ∧
      s'.nested = s.nested ∧ ∀ f ∈ s'.fields, r.aliases.Settled s.parameters f.type := by
  intro r nested s s'
  have ids : r.aliases.target? "Ids" = some (.array (.named "Id")) := rfl
  have id : r.aliases.target? "Id" = some (.named "Name") := rfl
  have name : r.aliases.target? "Name" = some (.named "String") := rfl
  have string : r.aliases.target? "String" = none := rfl
  have resolved : r.resolveStruct s = .ok s' := by
    simp [s, s', Registry.resolveStruct, TypeExpr.optional, TypeExpr.array, TypeExpr.generic,
      TypeExpr.named, Aliases.resolveIn_leaf, Aliases.resolveIn_cons, Aliases.follow_eq, ids, id,
      name, string, Aliases.replace, bind, Except.bind, pure, Except.pure]
  have written : ∀ f ∈ s.fields, f.type.Written := by decide
  have targets : ∀ e ∈ r.aliases.entries, e.2.Written := by decide
  obtain ⟨again, ⟨fields, changed, -⟩, settled⟩ := resolution_settles resolved
  have kept := congrArg StructDecl.nested changed
  exact ⟨resolved, written, targets, again, kept, settled written targets⟩

end SwiftCodec
