import SwiftCodec.Proofs.Codec.Capture

/-!
What the type arguments of a struct have to do with the expressions for a type. A plan asks of the
names that it calls whether they are among the type arguments, and asks for nothing else: not where
they stand, how often, or what other names there are.
-/
namespace SwiftCodec

namespace TypeExpr

/-- The names that the nodes of a type go by, at any depth. -/
def resolvedNames (t : TypeExpr) : List String := t.nodes.map resolvedName

theorem resolvedNames_of_callees {t : TypeExpr} {name : String} (called : name ∈ t.callees) :
    name ∈ t.resolvedNames := by
  induction t with
  | node base target args ih =>
    cases marked : Marker.of? ⟨base, target, args⟩ with
    | some kind =>
      rw [callees_marker marked] at called
      cases called
    | none =>
      rw [callees_node marked] at called
      rcases List.mem_cons.mp called with rfl | called
      · exact List.mem_map.mpr ⟨_, self_mem_nodes _, rfl⟩
      · obtain ⟨a, arg, called⟩ := List.mem_flatMap.mp called
        obtain ⟨n, inside, rfl⟩ := List.mem_map.mp (ih a arg called)
        exact List.mem_map.mpr ⟨n, mem_nodes_of_arg arg inside, rfl⟩

/-- No expression for a type tells one list of type arguments from the other. -/
structure SameExpressions (t : TypeExpr) (params params' : List String) : Prop where
  decode : ∀ input, decodeExpression input t params = decodeExpression input t params'
  closure : decodeClosure t params = decodeClosure t params'
  encode : ∀ value, encodeExpression value t params = encodeExpression value t params'

theorem sameExpressions {t : TypeExpr} {params params' : List String}
    (same : ∀ name ∈ t.resolvedNames, name ∈ params ↔ name ∈ params') :
    t.SameExpressions params params' := by
  have plan : Plan.of params t = Plan.of params' t :=
    Plan.of_callees fun name called => same name (resolvedNames_of_callees called)
  have decode (input : String) :
      decodeExpression input t params = decodeExpression input t params' :=
    congrArg (Plan.decode input) plan
  exact ⟨decode, congrArg Plan.closure (decode Plan.closureInput),
    fun value => congrArg (Plan.encode value) plan⟩

end TypeExpr

/-- Type arguments have a part in the expressions for a type only by being among its names. So their
order does not count, nor how often one is given, nor a name that is not in the type, even if it is
the beginning of one that is, or goes on from it. One that is given has a part in the decoding
expression exactly if the type calls it. -/
theorem type_arguments_do_not_leak (t : TypeExpr) :
    (∀ params params' : List String,
      (∀ name ∈ t.resolvedNames, name ∈ params ↔ name ∈ params') →
        t.SameExpressions params params') ∧
    (∀ params params' : List String, params ⊆ params' → params' ⊆ params →
      t.SameExpressions params params') ∧
    (∀ (before after : List String) (name : String), name ∉ t.resolvedNames →
      t.SameExpressions (before ++ name :: after) (before ++ after)) ∧
    ∀ params : List String, ∀ name ∈ params, ∀ input,
      decodeExpression input t params = decodeExpression input t (params.filter (· ≠ name)) ↔
        name ∉ t.callees := by
  refine ⟨fun _ _ => TypeExpr.sameExpressions, fun params params' more fewer => ?_,
    fun before after name absent => ?_, fun _ _ given => decodeExpression_without given t⟩
  · exact TypeExpr.sameExpressions fun _ _ => ⟨fun given => more given, fun given => fewer given⟩
  · refine TypeExpr.sameExpressions fun n present => ?_
    have other : n ≠ name := fun same => absent (same ▸ present)
    simp [other]

/-- The written name `Label` is none of the names that count, since it goes by `Tag`. -/
theorem type_arguments_do_not_leak_tags :
    let t : TypeExpr :=
      .generic "Box" [.array ⟨"Label", some "Tag", []⟩, .optional (.named "T"), .named "AnyJson"]
    (∀ name ∈ t.resolvedNames,
      name ∈ ["T", "Tag"] ↔ name ∈ ["Ta", "Tag", "Tags", "T", "Label", "Tag"]) ∧
    t.SameExpressions ["T", "Tag"] ["Ta", "Tag", "Tags", "T", "Label", "Tag"] ∧
    ["T", "Tag", "T"] ⊆ ["Tag", "T"] ∧ ["Tag", "T"] ⊆ ["T", "Tag", "T"] ∧
    t.SameExpressions ["T", "Tag", "T"] ["Tag", "T"] ∧
    "Ta" ∉ t.resolvedNames ∧ t.SameExpressions ["T", "Ta", "Tag"] ["T", "Tag"] ∧
    "Tag" ∈ ["T", "Tag"] ∧
    decodeExpression "json" t ["T", "Tag"] ≠ decodeExpression "json" t ["T"] := by
  intro t
  obtain ⟨members, reordered, foreign, given⟩ := type_arguments_do_not_leak t
  have same : ∀ name ∈ t.resolvedNames,
      name ∈ ["T", "Tag"] ↔ name ∈ ["Ta", "Tag", "Tags", "T", "Label", "Tag"] := by decide
  have more : ["T", "Tag", "T"] ⊆ ["Tag", "T"] := by decide
  have fewer : ["Tag", "T"] ⊆ ["T", "Tag", "T"] := by decide
  have absent : "Ta" ∉ t.resolvedNames := by decide
  have tag : "Tag" ∈ ["T", "Tag"] := by decide
  have called : "Tag" ∈ t.callees := by decide
  refine ⟨same, members _ _ same, more, fewer, reordered _ _ more fewer, absent,
    foreign ["T"] ["Tag"] "Ta" absent, tag, fun unchanged => ?_⟩
  exact (given ["T", "Tag"] "Tag" tag "json").mp unchanged called

end SwiftCodec
