import SwiftCodec.Registry.Basic
import SwiftCodec.TypeExpr.Shape

/-!
Following type aliases. An alias whose chain of targets ends in a name leaves the written name in
place and records the final one; an alias whose chain ends in a type with arguments is replaced by
that type. Names of markers are never looked up, and neither are names that carry arguments.

A chain holds the aliases that are being expanded around a type. Expanding one of them again is a
cycle, so a chain cannot outgrow the aliases there are.
-/
namespace SwiftCodec

namespace Aliases

/-- The target of a name that is looked up at all. -/
def target? (m : Aliases) (name : String) : Option TypeExpr :=
  if (Marker.named? name).isSome then none else m.find? name

/-- The aliases that are not in a chain. -/
def unexpanded (m : Aliases) (chain : List String) : List String :=
  m.keys.filter (! chain.contains ·)

theorem mem_keys_of_target? {m : Aliases} {name : String} {t : TypeExpr}
    (h : m.target? name = some t) : name ∈ m.keys := by
  unfold target? at h
  split at h
  · contradiction
  · exact NameMap.mem_keys_of_find? h

/-- Each alias that is put on the chain is one less to come. -/
theorem unexpanded_lt {m : Aliases} {chain : List String} {name : String}
    (known : name ∈ m.keys) (fresh : name ∉ chain) :
    (m.unexpanded (name :: chain)).length < (m.unexpanded chain).length := by
  have narrower : m.unexpanded (name :: chain) = (m.unexpanded chain).filter (· != name) := by
    simp only [unexpanded, List.filter_filter]
    congr 1
    funext k
    by_cases h : k = name <;> simp [h]
  rw [narrower]
  refine Nat.lt_of_le_of_ne (List.length_filter_le _ _) fun same => ?_
  have all := List.length_filter_eq_length_iff.mp same name (by simp [unexpanded, known, fresh])
  simp at all

/-- Follows a name through targets that are names themselves. The result has the chain with the
aliases gone through, and the type at the end if there was anything to follow. -/
def follow (m : Aliases) (chain : List String) (name : String) :
    Except Defect (List String × Option TypeExpr) :=
  match _known : m.target? name with
  | none => .ok (chain, none)
  | some t =>
    if _fresh : name ∈ chain then .error (.aliasCycle name)
    else if t.args.isEmpty then do
      let (chain, further) ← follow m (name :: chain) t.base
      .ok (chain, some (further.getD t))
    else .ok (name :: chain, some t)
termination_by (m.unexpanded chain).length
decreasing_by exact unexpanded_lt (mem_keys_of_target? _known) _fresh

/-- Nothing to follow leaves the chain alone, and following puts at least one alias on it. -/
theorem follow_chain {m : Aliases} {chain chain' : List String} {name : String}
    {end? : Option TypeExpr} (h : m.follow chain name = .ok (chain', end?)) :
    (m.unexpanded chain').length + end?.toList.length ≤ (m.unexpanded chain).length := by
  fun_induction follow m chain name generalizing chain' end? with
  | case1 chain name hn =>
    simp only [Except.ok.injEq, Prod.mk.injEq] at h
    obtain ⟨rfl, rfl⟩ := h
    simp
  | case2 => contradiction
  | case3 chain name t ht fresh hargs ih =>
    simp only [bind, Except.bind] at h
    split at h
    · contradiction
    · rename_i r hr
      simp only [Except.ok.injEq, Prod.mk.injEq] at h
      obtain ⟨rfl, rfl⟩ := h
      have := @ih r.1 r.2 hr
      have := unexpanded_lt (mem_keys_of_target? ht) fresh
      simp
      omega
  | case4 chain name t ht fresh hargs =>
    simp only [Except.ok.injEq, Prod.mk.injEq] at h
    obtain ⟨rfl, rfl⟩ := h
    have := unexpanded_lt (mem_keys_of_target? ht) fresh
    simp
    omega

mutual
/-- Resolves the aliases in a type. Type arguments in `params` shadow aliases of their name, but
not inside the target of an alias, which was declared elsewhere. -/
def resolveIn (m : Aliases) (params chain : List String) (t : TypeExpr) :
    Except Defect TypeExpr :=
  match t with
  | ⟨base, target, []⟩ =>
    if params.contains base then .ok ⟨base, target, []⟩
    else
      match _reached : m.follow chain base with
      | .error d => .error d
      | .ok (_, none) => .ok ⟨base, target, []⟩
      | .ok (_, some ⟨final, _, []⟩) => .ok ⟨base, some final, []⟩
      | .ok (chain', some ⟨final, _, arg :: args⟩) => do
        .ok ⟨final, none, ← resolveAll m [] chain' (arg :: args)⟩
  | ⟨base, target, arg :: args⟩ => do
    .ok ⟨base, target, ← resolveAll m params chain (arg :: args)⟩
termination_by ((m.unexpanded chain).length, sizeOf t)
decreasing_by
  · have := follow_chain _reached
    exact Prod.Lex.left _ _ (by simp at this; omega)
  · exact Prod.Lex.right _ (by simp only [TypeExpr.mk.sizeOf_spec]; omega)

def resolveAll (m : Aliases) (params chain : List String) (ts : List TypeExpr) :
    Except Defect (List TypeExpr) :=
  match ts with
  | [] => .ok []
  | t :: rest => do
    let t ← resolveIn m params chain t
    let rest ← resolveAll m params chain rest
    .ok (t :: rest)
termination_by ((m.unexpanded chain).length, sizeOf ts)
decreasing_by
  · exact Prod.Lex.right _ (by simp only [List.cons.sizeOf_spec]; omega)
  · exact Prod.Lex.right _ (by simp only [List.cons.sizeOf_spec]; omega)
end

/-- Resolves the aliases in a type written outside any struct. -/
def resolve (m : Aliases) (t : TypeExpr) : Except Defect TypeExpr := m.resolveIn [] [] t

end Aliases

namespace Registry

/-- Resolves the type of every field. -/
def resolveStruct (r : Registry) (s : StructDecl) : Except Defect StructDecl := do
  let fields ← s.fields.mapM fun f => do
    .ok { f with type := ← r.aliases.resolveIn s.parameters [] f.type }
  .ok { s with fields := fields }

/-- The enum with the final name of its raw type. -/
def resolveEnum (r : Registry) (e : EnumDecl) : Except Defect EnumDecl := do
  let raw ← r.aliases.resolve (.named e.rawType)
  .ok { e with rawType := raw.resolvedName }

/-- The enums a dictionary key may name: those of the file at hand, then those of the other files
with a name of their own. Raw types are resolved. -/
def knownEnums (r : Registry) (here : List EnumDecl) : Except Defect (List EnumDecl) :=
  let elsewhere := r.enums.entries.filter fun (name, _) => ! here.any (·.name = name)
  (here ++ elsewhere.map fun (name, raw) => EnumDecl.mk name raw).mapM r.resolveEnum

end Registry

end SwiftCodec
