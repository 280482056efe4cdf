import SwiftCodec.Proofs.Codec.Keys
import SwiftCodec.Proofs.Codec.Plans
import SwiftCodec.Proofs.Resolution.Scope

/-!
Type arguments of a struct and the targets of aliases. Resolution keeps the two apart: inside a
target no type argument shadows anything. Plans do not: they know a type argument by its name alone,
so a target with a name of the same spelling is left to the function the caller passes in. This is
the only way in which a type argument that a field type does not name enters the code for the field.
-/
namespace SwiftCodec

namespace TypeExpr

mutual
/-- The names whose functions the decoding expression of a type calls: it goes no further than to
markers. -/
def callees : TypeExpr → List String
  | ⟨base, target, args⟩ =>
    if (Marker.of? ⟨base, target, args⟩).isSome then []
    else resolvedName ⟨base, target, args⟩ :: calleesAll args
termination_by structural t => t
def calleesAll : List TypeExpr → List String
  | [] => []
  | t :: ts => callees t ++ calleesAll ts
termination_by structural ts => ts
end

theorem calleesAll_eq_flatMap (ts : List TypeExpr) : calleesAll ts = ts.flatMap callees := by
  induction ts with
  | nil => rfl
  | cons t ts ih => simp [calleesAll, ih]

theorem callees_marker {t : TypeExpr} {kind : Marker} (marked : Marker.of? t = some kind) :
    t.callees = [] := by
  cases t
  simp [callees, marked]

theorem callees_node {t : TypeExpr} (unmarked : Marker.of? t = none) :
    t.callees = t.resolvedName :: t.args.flatMap callees := by
  cases t
  simp [callees, unmarked, calleesAll_eq_flatMap]

theorem optional_unmarked (inner : TypeExpr) : Marker.of? ⟨"Optional", none, [inner]⟩ = none := by
  simp [Marker.of?, Marker.named?]

theorem callees_optional (inner : TypeExpr) :
    callees ⟨"Optional", none, [inner]⟩ = "Optional" :: inner.callees := by
  simp [callees_node (optional_unmarked inner), resolvedName]

/-- The shape of an optional type is the whole type, since only a name can stand for an alias. -/
theorem eq_optional {t inner : TypeExpr} (shaped : t.shape = .ok (.optional inner))
    (rooted : t.args ≠ [] → t.target = none) : t = ⟨"Optional", none, [inner]⟩ := by
  obtain ⟨base, target, args⟩ := t
  unfold shape at shaped
  split_ifs at shaped with optional array dictionary
  · split at shaped
    · rename_i _ args_eq
      cases shaped
      obtain rfl : args = [inner] := args_eq
      obtain rfl : target = none := rooted (List.cons_ne_nil _ _)
      rw [show base = "Optional" from optional]
    · cases shaped
  all_goals split at shaped <;> cases shaped

end TypeExpr

namespace Plan

/-- A plan looks only for the names it calls among the type arguments. -/
theorem of_callees {params params' : List String} {t : TypeExpr}
    (same : ∀ n ∈ t.callees, n ∈ params ↔ n ∈ params') : of params t = of params' t := by
  induction t with
  | node base target args ih =>
    cases marked : Marker.of? ⟨base, target, args⟩ with
    | some kind => rw [of_marker marked, of_marker marked]
    | none =>
      rw [TypeExpr.callees_node marked] at same
      have inside : args.map (of params) = args.map (of params') :=
        List.map_congr_left fun a member => ih a member fun n called =>
          same n (List.mem_cons_of_mem _ (List.mem_flatMap.mpr ⟨a, member, called⟩))
      have root := same _ List.mem_cons_self
      by_cases own : TypeExpr.resolvedName ⟨base, target, args⟩ ∈ params
      · rw [of_parameter marked own, of_parameter marked (root.mp own), inside]
      · rw [of_own marked own, of_own marked (mt root.mpr own), inside]

theorem mem_without {params : List String} {name : String} {ns : List String} (absent : name ∉ ns) :
    ∀ n ∈ ns, n ∈ params ↔ n ∈ params.filter (· ≠ name) := by
  intro n member
  have other : n ≠ name := fun same => absent (same ▸ member)
  simp [other]

theorem length_arguments {params params' : List String} {name : String} {args : List TypeExpr}
    (each : ∀ a ∈ args, ((of params' a).decode closureInput).length =
      ((of params a).decode closureInput).length + 5 * a.callees.count name) (input : String) :
    (String.intercalate ", " (decodeClosures (args.map (of params')) ++ [input])).length =
      (String.intercalate ", " (decodeClosures (args.map (of params)) ++ [input])).length +
        5 * (args.flatMap TypeExpr.callees).count name := by
  induction args with
  | nil => rfl
  | cons a args ih =>
    have head := each a List.mem_cons_self
    have rest := ih fun b member => each b (List.mem_cons_of_mem _ member)
    simp only [List.map_cons, decodeClosures, List.cons_append, List.flatMap_cons,
      List.count_append]
    rw [String.intercalate_cons_of_ne_nil (by simp), String.intercalate_cons_of_ne_nil (by simp)]
    simp only [closure, String.length_append, head, rest]
    omega

/-- Each call of `T.decodeJson` is five letters longer than the call of `decodeT` in its place. -/
theorem length_decode_without {params : List String} {name : String} (own : name ∈ params)
    (t : TypeExpr) (input : String) :
    ((of (params.filter (· ≠ name)) t).decode input).length =
      ((of params t).decode input).length + 5 * t.callees.count name := by
  induction t generalizing input with
  | node base target args ih =>
    cases marked : Marker.of? ⟨base, target, args⟩ with
    | some kind => simp [of_marker marked, TypeExpr.callees_marker marked]
    | none =>
      have inside := length_arguments (fun a member => ih a member closureInput) input
      have letters : "decode".length + 5 = "decodeJson".length + ".".length := rfl
      rw [TypeExpr.callees_node marked]
      by_cases named : TypeExpr.resolvedName ⟨base, target, args⟩ = name
      · have removed : TypeExpr.resolvedName ⟨base, target, args⟩ ∉ params.filter (· ≠ name) := by
          simp [named]
        rw [of_own marked removed, of_parameter marked (named ▸ own)]
        simp only [decode, decodeName, String.length_append, inside, named,
          List.count_cons_self]
        omega
      · have kept : TypeExpr.resolvedName ⟨base, target, args⟩ ∈ params.filter (· ≠ name) ↔
            TypeExpr.resolvedName ⟨base, target, args⟩ ∈ params := by
          simp [named]
        rw [List.count_cons_of_ne named]
        by_cases parameter : TypeExpr.resolvedName ⟨base, target, args⟩ ∈ params
        · rw [of_parameter marked (kept.mpr parameter), of_parameter marked parameter]
          simp only [decode, String.length_append, inside]
          omega
        · rw [of_own marked (mt kept.mp parameter), of_own marked parameter]
          simp only [decode, String.length_append, inside]
          omega

end Plan

/-- A type argument that a type does not call has no part in its plan, and one that it calls has:
without it the text grows. -/
theorem decodeExpression_without {params : List String} {name : String} (own : name ∈ params)
    (t : TypeExpr) (input : String) :
    decodeExpression input t params = decodeExpression input t (params.filter (· ≠ name)) ↔
      name ∉ t.callees := by
  constructor
  · intro same called
    have grown := Plan.length_decode_without own t input
    have counted := List.count_pos_iff.mpr called
    simp only [decodeExpression] at same
    rw [← same] at grown
    omega
  · intro uncalled
    rw [decodeExpression, decodeExpression, Plan.of_callees (Plan.mem_without uncalled)]

namespace Field

/-- The lines that decode a field inside a struct with the given type arguments. -/
def decodeLines (f : Field) (params : List String) : Except Defect (List String) :=
  (f.decode params).map (·.flatMap Statement.lines)

/-- The lines that encode it. -/
def encodeLines (f : Field) (params : List String) (known : List EnumDecl) :
    Except Defect (List String) :=
  (f.encode params known).map fun (statements, _) => statements.flatMap Statement.lines

variable {f : Field} {params params' : List String} {known : List EnumDecl}

theorem decodeLines_optional {inner : TypeExpr} (shaped : f.type.shape = .ok (.optional inner)) :
    f.decodeLines params = f.decodeLines params' ↔
      decodeExpression (f.name ++ "_field!") inner params =
        decodeExpression (f.name ++ "_field!") inner params' := by
  have input : f.name ++ "_field" ++ "!" = f.name ++ "_field!" := by rw [String.append_assoc]; rfl
  simp [decodeLines, decode, shaped, bind, Except.bind, Except.map, Statement.lines, Binding.text,
    Source.text, String.append_right_inj, input]

theorem decodeLines_required {s : Shape} (shaped : f.type.shape = .ok s)
    (required : ∀ inner, s ≠ .optional inner) (unmarked : Marker.of? f.type = none) :
    f.decodeLines params = f.decodeLines params' ↔
      decodeExpression (f.name ++ "_field") f.type params =
        decodeExpression (f.name ++ "_field") f.type params' := by
  cases s with
  | optional inner => exact absurd rfl (required inner)
  | _ =>
    simp [decodeLines, decode, shaped, unmarked, bind, Except.bind, Except.map, Statement.lines,
      Binding.text, Source.text, String.append_right_inj, String.append_left_inj]

theorem decodeLines_marker {s : Shape} (shaped : f.type.shape = .ok s)
    (required : ∀ inner, s ≠ .optional inner) {kind : Marker}
    (marked : Marker.of? f.type = some kind) : f.decodeLines params = f.decodeLines params' := by
  cases s with
  | optional inner => exact absurd rfl (required inner)
  | _ => cases kind <;> simp [decodeLines, decode, shaped, marked, bind, Except.bind]

theorem encodeLines_judged {key? : Option String} (judged : f.nonStringKey? known = .ok key?) :
    f.encodeLines params known = f.encodeLines params' known ↔
      encodeExpression f.name f.type params = encodeExpression f.name f.type params' := by
  simp [encodeLines, encode_eq, judged, store, bind, Except.bind, Except.map, Statement.lines,
    Source.text, String.append_right_inj]

/-- The statements that decode an optional field call its argument only; that `Optional` itself is
captured shows where the field is encoded. -/
theorem encodeExpression_optional {inner : TypeExpr} {value name : String} (own : name ∈ params)
    (same : encodeExpression value ⟨"Optional", none, [inner]⟩ params =
      encodeExpression value ⟨"Optional", none, [inner]⟩ (params.filter (· ≠ name))) :
    name ≠ "Optional" := by
  rintro rfl
  rw [encodeExpression, encodeExpression,
    Plan.of_parameter (TypeExpr.optional_unmarked inner) own,
    Plan.of_own (TypeExpr.optional_unmarked inner) (by simp [TypeExpr.resolvedName])] at same
  have lengths := congrArg String.length same
  have letters : "encode".length = 6 ∧ "Optional".length = 8 ∧ "encodeJson".length = 10 ∧
      "(".length = 1 ∧ ".".length = 1 ∧ "\x7b ".length = 2 ∧ " \x7d".length = 2 :=
    ⟨rfl, rfl, rfl, rfl, rfl, rfl, rfl⟩
  simp only [Plan.encode, Plan.encodeClosures, TypeExpr.resolvedName, encodeName, List.map_cons,
    List.map_nil, Option.getD_none, String.intercalate_singleton, Plan.closure,
    String.length_append] at lengths
  omega

theorem uncalled_optional {name : String} (own : name ∈ params) {inner : TypeExpr}
    (type : f.type = ⟨"Optional", none, [inner]⟩)
    (decoded : f.decodeLines params = f.decodeLines (params.filter (· ≠ name)))
    (encoded : f.encodeLines params known = f.encodeLines (params.filter (· ≠ name)) known) :
    name ∉ f.type.callees := by
  have shaped : f.type.shape = .ok (.optional inner) := by rw [type]; rfl
  have judged : f.nonStringKey? known = .ok none := by rw [nonStringKey?_eq, shaped]; rfl
  rw [decodeLines_optional shaped, decodeExpression_without own] at decoded
  rw [encodeLines_judged judged, type] at encoded
  rw [type, TypeExpr.callees_optional]
  exact List.not_mem_cons_of_ne_of_not_mem (encodeExpression_optional own encoded) decoded

theorem uncalled_required {name : String} (own : name ∈ params) {s : Shape}
    (shaped : f.type.shape = .ok s) (required : ∀ inner, s ≠ .optional inner)
    (decoded : f.decodeLines params = f.decodeLines (params.filter (· ≠ name))) :
    name ∉ f.type.callees := by
  cases marked : Marker.of? f.type with
  | some kind => simp [TypeExpr.callees_marker marked]
  | none =>
    rw [decodeLines_required shaped required marked, decodeExpression_without own] at decoded
    exact decoded

/-- Type arguments that a type does not call have no part in the code for a field of that type. -/
theorem lines_uncalled {s : Shape} (shaped : f.type.shape = .ok s)
    (rooted : f.type.args ≠ [] → f.type.target = none)
    (same : ∀ n ∈ f.type.callees, n ∈ params ↔ n ∈ params') :
    f.decodeLines params = f.decodeLines params' ∧
      f.encodeLines params known = f.encodeLines params' known := by
  have plan : Plan.of params f.type = Plan.of params' f.type := Plan.of_callees same
  have encoded : f.encodeLines params known = f.encodeLines params' known := by
    simp only [encodeLines, encode_eq, store, encodeExpression, plan]
  refine ⟨?_, encoded⟩
  by_cases optional : ∃ inner, s = .optional inner
  · obtain ⟨inner, rfl⟩ := optional
    rw [TypeExpr.eq_optional shaped rooted, TypeExpr.callees_optional] at same
    rw [decodeLines_optional shaped, decodeExpression, decodeExpression,
      Plan.of_callees fun n called => same n (List.mem_cons_of_mem _ called)]
  · have required : ∀ inner, s ≠ .optional inner := fun inner h => optional ⟨inner, h⟩
    cases marked : Marker.of? f.type with
    | some kind => exact decodeLines_marker shaped required marked
    | none =>
      rw [decodeLines_required shaped required marked, decodeExpression, decodeExpression, plan]

/-- The code for a field of a resolved type changes with a type argument if and only if there is
any and the type calls the argument. -/
theorem lines_without {name : String} (own : name ∈ params)
    (rooted : f.type.args ≠ [] → f.type.target = none) :
    (f.decodeLines params = f.decodeLines (params.filter (· ≠ name)) ∧
        f.encodeLines params known = f.encodeLines (params.filter (· ≠ name)) known) ↔
      ∀ s, f.type.shape = .ok s → name ∉ f.type.callees := by
  constructor
  · rintro ⟨decoded, encoded⟩ s shaped
    by_cases optional : ∃ inner, s = .optional inner
    · obtain ⟨inner, rfl⟩ := optional
      exact uncalled_optional own (TypeExpr.eq_optional shaped rooted) decoded encoded
    · exact uncalled_required own shaped (fun inner h => optional ⟨inner, h⟩) decoded
  · intro uncalled
    cases shaped : f.type.shape with
    | error => simp [decodeLines, decode, encodeLines, encode, nonStringKey?, shaped, bind,
        Except.bind, Except.map]
    | ok s => exact lines_uncalled shaped rooted (Plan.mem_without (uncalled s shaped))

end Field

namespace Aliases

/-- The code for a field whose type has still to be resolved: the lines that decode it, and those
that encode it. -/
def fieldLines (m : Aliases) (params : List String) (known : List EnumDecl) (f : Field) :
    Except Defect (Except Defect (List String) × Except Defect (List String)) := do
  let resolved : Field := { f with type := ← m.resolveIn params [] f.type }
  .ok (resolved.decodeLines params, resolved.encodeLines params known)

/-- The root of a resolved type that has arguments is as it was written, in the field or in the
target of an alias. -/
theorem target_of_resolved {m : Aliases} {params chain : List String} {t u : TypeExpr}
    (written : t.Written) (resolved : m.resolveIn params chain t = .ok u) (applied : u.args ≠ []) :
    u.target = none := by
  obtain ⟨base, target, args⟩ := t
  obtain rfl : target = none := written.target_eq
  cases args with
  | cons arg args =>
    rw [resolveIn_cons] at resolved
    obtain ⟨us, _, h⟩ := bind_eq_ok.mp resolved
    cases h
    rfl
  | nil =>
    rw [resolveIn_leaf] at resolved
    split_ifs at resolved
    · cases resolved
      rfl
    · obtain ⟨⟨chain', end?⟩, _, resolved⟩ := bind_eq_ok.mp resolved
      match end? with
      | none => cases resolved; rfl
      | some ⟨_, _, []⟩ => cases resolved; exact absurd rfl applied
      | some ⟨_, _, _ :: _⟩ =>
        obtain ⟨us, _, h⟩ := bind_eq_ok.mp resolved
        cases h
        rfl

/-- A type argument of a struct that the type of a field does not name has no part in the code for
the field, unless the resolved type, through the target of an alias, calls a type of that name. -/
theorem field_captures_iff (m : Aliases) (params : List String) (known : List EnumDecl) (f : Field)
    (name : String) (written : f.type.Written) (own : name ∈ params)
    (foreign : name ∉ f.type.names) :
    m.fieldLines params known f = m.fieldLines (params.filter (· ≠ name)) known f ↔
      ∀ u s, m.resolveIn params [] f.type = .ok u → u.shape = .ok s → name ∉ u.callees := by
  have same : m.resolveIn (params.filter (· ≠ name)) [] f.type = m.resolveIn params [] f.type :=
    resolveIn_params fun a leaf =>
      (Plan.mem_without foreign a (TypeExpr.names_of_leaves leaf)).symm
  rw [fieldLines, fieldLines, same]
  cases resolved : m.resolveIn params [] f.type with
  | error => simp [bind, Except.bind]
  | ok u =>
    have rooted : u.args ≠ [] → u.target = none := target_of_resolved written resolved
    have code := @Field.lines_without { f with type := u } params known name own rooted
    simp only [bind, Except.bind, Except.ok.injEq, Prod.mk.injEq, code]
    exact ⟨fun uncalled v s h => h ▸ uncalled s, fun uncalled s => uncalled u s rfl⟩

theorem field_captures_iff_ids :
    let m : Aliases := ⟨[("Ids", .array (.named "Id")), ("Id", .named "String")]⟩
    let f : Field := ⟨"ids", .optional (.named "Ids")⟩
    f.type.Written ∧ "T" ∈ ["T"] ∧ "T" ∉ f.type.names ∧
      m.fieldLines ["T"] [] f = m.fieldLines (["T"].filter (· ≠ "T")) [] f := by
  intro m f
  have written : f.type.Written := by decide
  have own : "T" ∈ ["T"] := List.mem_cons_self
  have foreign : "T" ∉ f.type.names := by decide
  have ids : m.target? "Ids" = some (.array (.named "Id")) := rfl
  have id : m.target? "Id" = some (.named "String") := rfl
  have string : m.target? "String" = none := rfl
  have resolved : m.resolveIn ["T"] [] f.type =
      .ok (.optional (.array ⟨"Id", some "String", []⟩)) := by
    simp [f, TypeExpr.optional, TypeExpr.array, TypeExpr.generic, TypeExpr.named, resolveIn_leaf,
      resolveIn_cons, follow_eq, ids, id, string, replace, bind, Except.bind, pure, Except.pure]
  refine ⟨written, own, foreign,
    (field_captures_iff m ["T"] [] f "T" written own foreign).mpr fun u s h _ => ?_⟩
  rw [resolved] at h
  cases h
  decide

/-- The target `T` of an alias is left to the function for the type argument `T`. -/
theorem target_captured :
    let m : Aliases := ⟨[("A", .named "T")]⟩
    let f : Field := ⟨"item", .named "A"⟩
    f.type.Written ∧ "T" ∈ ["T"] ∧ "T" ∉ f.type.names ∧
      m.fieldLines ["T"] [] f ≠ m.fieldLines (["T"].filter (· ≠ "T")) [] f := by
  intro m f
  have a : m.target? "A" = some (.named "T") := rfl
  have t : m.target? "T" = none := rfl
  have resolved : ∀ params, "A" ∉ params →
      m.resolveIn params [] f.type = .ok ⟨"A", some "T", []⟩ := by
    intro params exposed
    simp [f, TypeExpr.named, resolveIn_name exposed, follow_eq, a, t, replace, bind, Except.bind]
  refine ⟨by decide, List.mem_cons_self, by decide, ?_⟩
  rw [fieldLines, fieldLines, resolved _ (by decide), resolved _ (by decide)]
  decide

end Aliases

end SwiftCodec
