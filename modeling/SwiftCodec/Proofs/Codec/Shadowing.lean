import SwiftCodec.Proofs.Codec.Calls
import SwiftCodec.Proofs.Registry.Resolving
import SwiftCodec.Proofs.TypeExpr.Validity

/-!
The type arguments of a struct inside the types of its fields. A part of a type is told by the
layers around it. Resolution goes through all of them, and an expression through those that do not
end it; what either does with the part is what it does with a type by itself.
-/
namespace SwiftCodec

/-- What a type has around one of its arguments. -/
structure Layer where
  base : String
  target : Option String := none
  before : List TypeExpr := []
  after : List TypeExpr := []
deriving DecidableEq

namespace Layer

def wrap (l : Layer) (t : TypeExpr) : TypeExpr := ⟨l.base, l.target, l.before ++ t :: l.after⟩

/-- A type inside layers, of which the first is the outermost. -/
def wrapAll (layers : List Layer) (t : TypeExpr) : TypeExpr := layers.foldr wrap t

/-- The name by which a codec is called. -/
def name (l : Layer) : String := l.target.getD l.base

/-- Decoding goes on inside. -/
def Decodes (l : Layer) : Prop := Marker.of? ⟨l.base, l.target, []⟩ = none

/-- Encoding goes on inside; what is inside a type argument is left to the function for it. -/
def Encodes (params : List String) (l : Layer) : Prop := l.Decodes ∧ l.name ∉ params

instance (l : Layer) : Decidable l.Decodes := inferInstanceAs (Decidable (_ = _))

instance (params : List String) (l : Layer) : Decidable (l.Encodes params) :=
  inferInstanceAs (Decidable (_ ∧ _))

variable {l : Layer} {params : List String} {t : TypeExpr}

/-! ## Resolution -/

/-- A layer whose other arguments have been resolved. -/
structure Settles (m : Aliases) (params chain : List String) (l l' : Layer) : Prop where
  base : l'.base = l.base
  target : l'.target = l.target
  before : List.Forall₂ (fun t u => m.resolveIn params chain t = .ok u) l.before l'.before
  after : List.Forall₂ (fun t u => m.resolveIn params chain t = .ok u) l.after l'.after

theorem Settles.alone {m : Aliases} {chain : List String} {base : String} {target : Option String}
    {l' : Layer} (settles : Settles m params chain { base, target } l') :
    l' = { base, target } := by
  obtain ⟨base', target', before, after⟩ := l'
  obtain ⟨rfl, rfl, first, last⟩ := settles
  cases first
  cases last
  rfl

theorem settles_of_resolveIn {m : Aliases} {chain : List String} {u : TypeExpr}
    (resolved : m.resolveIn params chain (l.wrap t) = .ok u) :
    ∃ l' t', u = wrap l' t' ∧ l.Settles m params chain l' ∧
      m.resolveIn params chain t = .ok t' := by
  have applied : l.before ++ t :: l.after ≠ [] := by simp
  rw [wrap, Aliases.resolveIn_applied applied, List.mapM_append, List.mapM_cons] at resolved
  obtain ⟨us, arguments, h⟩ := bind_eq_ok.mp resolved
  cases h
  obtain ⟨before, first, arguments⟩ := bind_eq_ok.mp arguments
  obtain ⟨rest, others, h⟩ := bind_eq_ok.mp arguments
  cases h
  obtain ⟨t', here, others⟩ := bind_eq_ok.mp others
  obtain ⟨after, last, h⟩ := bind_eq_ok.mp others
  cases h
  exact ⟨⟨l.base, l.target, before, after⟩, t', rfl,
    ⟨rfl, rfl, mapM_eq_ok.mp first, mapM_eq_ok.mp last⟩, here⟩

theorem resolveIn_wrapAll {m : Aliases} {chain : List String} {layers : List Layer} {u : TypeExpr}
    (resolved : m.resolveIn params chain (wrapAll layers t) = .ok u) :
    ∃ layers' t', u = wrapAll layers' t' ∧
      List.Forall₂ (Settles m params chain) layers layers' ∧
      m.resolveIn params chain t = .ok t' := by
  induction layers generalizing u with
  | nil => exact ⟨[], u, rfl, .nil, resolved⟩
  | cons l layers ih =>
    obtain ⟨l', inside, rfl, settles, resolved⟩ := settles_of_resolveIn resolved
    obtain ⟨layers', t', rfl, later, here⟩ := ih resolved
    exact ⟨l' :: layers', t', rfl, .cons settles later, here⟩

end Layer

/-! ## Expressions -/

/-- A text made from a type has another one at one spot, whatever the type is. -/
def Spot (whole part : TypeExpr → String) : Prop :=
  ∃ front back, ∀ t, whole t = front ++ part t ++ back

namespace Spot

variable {whole part within : TypeExpr → String}

theorem refl (whole : TypeExpr → String) : Spot whole whole := ⟨"", "", fun t => by simp⟩

theorem trans (outer : Spot whole part) (inner : Spot part within) : Spot whole within := by
  obtain ⟨front, back, outer⟩ := outer
  obtain ⟨front', back', inner⟩ := inner
  refine ⟨front ++ front', back' ++ back, fun t => ?_⟩
  rw [outer, inner]
  simp only [String.append_assoc]

theorem closure (part : TypeExpr → String) : Spot (fun t => Plan.closure (part t)) part :=
  ⟨_, _, fun _ => rfl⟩

theorem intercalate (before after : List String) (part : TypeExpr → String) :
    Spot (fun t => String.intercalate ", " (before ++ part t :: after)) part := by
  induction before with
  | nil =>
    cases after with
    | nil => exact ⟨"", "", fun t => by simp⟩
    | cons s after =>
      refine ⟨"", ", " ++ String.intercalate ", " (s :: after), fun t => ?_⟩
      rw [String.empty_append, ← String.append_assoc]
      exact String.intercalate_cons_of_ne_nil (by simp)
  | cons s before ih =>
    refine .trans ⟨s ++ ", ", "", fun t => ?_⟩ ih
    rw [String.append_empty]
    exact String.intercalate_cons_of_ne_nil (by simp)

end Spot

namespace Layer

variable {params : List String} {l : Layer} {layers : List Layer}

/-- The value that the part inside layers is coded from. -/
def value (input : String) : List Layer → String
  | [] => input
  | _ :: _ => Plan.closureInput

theorem value_closureInput (layers : List Layer) :
    value Plan.closureInput layers = Plan.closureInput := by
  cases layers <;> rfl

theorem plan_parameter (goes : l.Decodes) (own : l.name ∈ params) (t : TypeExpr) :
    Plan.of params (l.wrap t) = .parameter l.name ((l.wrap t).args.map (Plan.of params)) :=
  Plan.of_parameter (t := l.wrap t) goes own

theorem plan_own (goes : l.Decodes) (foreign : l.name ∉ params) (t : TypeExpr) :
    Plan.of params (l.wrap t) = .own l.name ((l.wrap t).args.map (Plan.of params)) :=
  Plan.of_own (t := l.wrap t) goes foreign

/-- A marker is coded in one way, whatever there is in it. -/
theorem plan_marker (stops : ¬ l.Decodes) (t u : TypeExpr) :
    Plan.of params (l.wrap t) = Plan.of params (l.wrap u) := by
  obtain ⟨kind, marked⟩ := Option.ne_none_iff_exists'.mp stops
  rw [Plan.of_marker (t := l.wrap t) marked, Plan.of_marker (t := l.wrap u) marked]
  rfl

theorem decode_wrap (input : String) (t : TypeExpr) (goes : l.Decodes) :
    decodeExpression input (l.wrap t) params =
      (if l.name ∈ params then "decode" ++ l.name else l.name ++ "." ++ decodeName) ++ "(" ++
        String.intercalate ", " (l.before.map (decodeClosure · params) ++
          decodeClosure t params :: (l.after.map (decodeClosure · params) ++ [input])) ++ ")" := by
  have arguments : Plan.decodeClosures ((l.wrap t).args.map (Plan.of params)) ++ [input] =
      l.before.map (decodeClosure · params) ++
        decodeClosure t params :: (l.after.map (decodeClosure · params) ++ [input]) := by
    rw [Plan.decodeClosures_args]
    simp [wrap]
  by_cases own : l.name ∈ params
  · rw [decodeExpression, plan_parameter goes own, Plan.decode, arguments, if_pos own]
  · rw [decodeExpression, plan_own goes own, Plan.decode, arguments, if_neg own]

theorem encode_wrap (value : String) (t : TypeExpr) (goes : l.Encodes params) :
    encodeExpression value (l.wrap t) params =
      value ++ "." ++ encodeName ++ "(" ++
        String.intercalate ", " (l.before.map (encodeClosure · params) ++
          encodeClosure t params :: l.after.map (encodeClosure · params)) ++ ")" := by
  rw [encodeExpression, plan_own goes.1 goes.2, Plan.encode, Plan.encodeClosures_args]
  simp [wrap]

theorem spot_decode (input : String) (goes : l.Decodes) :
    Spot (fun t => decodeExpression input (l.wrap t) params)
      (decodeExpression Plan.closureInput · params) := by
  have inside := Spot.intercalate (l.before.map (decodeClosure · params))
    (l.after.map (decodeClosure · params) ++ [input]) (decodeClosure · params)
  exact .trans ⟨_, _, fun t => decode_wrap input t goes⟩ (inside.trans (.closure _))

theorem spot_encode (value : String) (goes : l.Encodes params) :
    Spot (fun t => encodeExpression value (l.wrap t) params)
      (encodeExpression Plan.closureInput · params) := by
  have inside := Spot.intercalate (l.before.map (encodeClosure · params))
    (l.after.map (encodeClosure · params)) (encodeClosure · params)
  exact .trans ⟨_, _, fun t => encode_wrap value t goes⟩ (inside.trans (.closure _))

/-- An expression that goes on inside single layers goes on inside several of them. -/
theorem spot_wrapAll {expression : String → TypeExpr → String} {Goes : Layer → Prop}
    (one : ∀ l, Goes l → ∀ input,
      Spot (fun t => expression input (l.wrap t)) (expression Plan.closureInput))
    (goes : ∀ l ∈ layers, Goes l) (input : String) :
    Spot (fun t => expression input (wrapAll layers t)) (expression (value input layers)) := by
  induction layers generalizing input with
  | nil => exact .refl _
  | cons l layers ih =>
    obtain ⟨here, later⟩ := List.forall_mem_cons.mp goes
    obtain ⟨front, back, outer⟩ := one l here input
    have inner := ih later Plan.closureInput
    rw [value_closureInput] at inner
    exact .trans ⟨front, back, fun t => outer (wrapAll layers t)⟩ inner

/-- A layer that an expression does not go on inside hides everything there is in it. -/
theorem hidden_wrapAll {expression : String → TypeExpr → String} {Goes : Layer → Prop}
    (one : ∀ l, Goes l → ∀ input,
      Spot (fun t => expression input (l.wrap t)) (expression Plan.closureInput))
    (hides : ∀ l, ¬ Goes l → ∀ input t u, expression input (l.wrap t) = expression input (l.wrap u))
    (stops : ¬ ∀ l ∈ layers, Goes l) (input : String) (t u : TypeExpr) :
    expression input (wrapAll layers t) = expression input (wrapAll layers u) := by
  -- Around the layer that hides them both types are in the same text.
  induction layers generalizing input with
  | nil => exact absurd (List.forall_mem_nil _) stops
  | cons l layers ih =>
    by_cases goes : Goes l
    · have later : ¬ ∀ l ∈ layers, Goes l :=
        fun all => stops (List.forall_mem_cons.mpr ⟨goes, all⟩)
      obtain ⟨front, back, outer⟩ := one l goes input
      have inner : front ++ expression Plan.closureInput (wrapAll layers t) ++ back =
          front ++ expression Plan.closureInput (wrapAll layers u) ++ back := by
        rw [ih later]
      exact ((outer _).trans inner).trans (outer _).symm
    · exact hides l goes input _ _

theorem hides_decode (stops : ¬ l.Decodes) (input : String) (t u : TypeExpr) :
    decodeExpression input (l.wrap t) params = decodeExpression input (l.wrap u) params := by
  rw [decodeExpression, decodeExpression, plan_marker stops t u]

theorem hides_encode (stops : ¬ l.Encodes params) (value : String) (t u : TypeExpr) :
    encodeExpression value (l.wrap t) params = encodeExpression value (l.wrap u) params := by
  rw [encodeExpression, encodeExpression]
  by_cases goes : l.Decodes
  · have own : l.name ∈ params := by
      by_contra foreign
      exact stops ⟨goes, foreign⟩
    rw [plan_parameter goes own t, plan_parameter goes own u, Plan.encode, Plan.encode]
  · rw [plan_marker goes t u]

end Layer

/-! ## Fields -/

namespace Field

variable {f : Field} {params : List String} {layers : List Layer} {t : TypeExpr}

/-- How many layers a decoder has taken off before it decodes a field, and the value that is
left. -/
def start (f : Field) : Nat × String :=
  if f.type.base = "Optional" then (1, f.name ++ "_field" ++ "!") else (0, f.name ++ "_field")

theorem decodes_from_start {statements : List Statement} (typed : f.type = Layer.wrapAll layers t)
    (plain : t.args = []) (unmarked : Marker.of? t = none) (goes : ∀ l ∈ layers, l.Decodes)
    (decoded : f.decode params = .ok statements) :
    ∃ st ∈ statements, ∃ lead, st.expression? = some (lead ++
      decodeExpression f.start.2 (Layer.wrapAll (layers.drop f.start.1) t) params) := by
  obtain ⟨shape, shaped, decoded⟩ := bind_eq_ok.mp decoded
  have optional := TypeExpr.optional_iff shaped
  cases shape with
  | optional inner =>
    cases decoded
    have base : f.type.base = "Optional" := optional.mpr ⟨inner, rfl⟩
    have single : f.type.args.length = 1 := (TypeExpr.shaped_iff.mp ⟨_, shaped⟩).1 (.inl base)
    have member := TypeExpr.inner_mem_args shaped
    cases layers with
    | nil =>
      have none : f.type.args = [] := (congrArg TypeExpr.args typed).trans plain
      rw [none] at member
      cases member
    | cons l layers =>
      have arguments : f.type.args = l.before ++ Layer.wrapAll layers t :: l.after :=
        congrArg TypeExpr.args typed
      -- The one argument of an optional is the one that the layer is around.
      obtain ⟨before, after⟩ : l.before = [] ∧ l.after = [] := by
        rw [arguments, List.length_append, List.length_cons] at single
        exact ⟨List.length_eq_zero_iff.mp (by omega), List.length_eq_zero_iff.mp (by omega)⟩
      rw [arguments, before, after, List.nil_append, List.mem_singleton] at member
      refine ⟨_, List.mem_cons_of_mem _ List.mem_cons_self, f.name ++ "_field" ++ " == nil || " ++
        (f.name ++ "_field") ++ "! is NSNull ? nil : ", ?_⟩
      rw [start, if_pos base, member]
      rfl
  | plain | array | dictionary | generic =>
    cases decoded
    have base : f.type.base ≠ "Optional" := fun same => by simpa using optional.mp same
    have outermost : Marker.of? f.type = none := by
      rw [typed]
      cases layers with
      | nil => exact unmarked
      | cons l layers => exact goes l List.mem_cons_self
    refine ⟨_, List.mem_cons_of_mem _ List.mem_cons_self, "", ?_⟩
    rw [outermost, start, if_neg base, String.empty_append, List.drop_zero, ← typed]
    rfl

theorem encodes_from_start {known : List EnumDecl} {statements : List Statement}
    {key? : Option String} (encoded : f.encode params known = .ok (statements, key?)) :
    ∃ st ∈ statements, st.expression? = some (encodeExpression f.name f.type params) := by
  obtain ⟨key?, -, h⟩ := bind_eq_ok.mp encoded
  cases h
  cases key? with
  | none => exact ⟨_, List.mem_cons_self, rfl⟩
  | some key => exact ⟨_, List.mem_cons_of_mem _ List.mem_cons_self, rfl⟩

end Field

/-! ## The type argument -/

/-- What an expression does with a type of the given name inside layers. If it goes on inside all of
them, it calls a function there of the value at hand; else it is the same whatever type there is. -/
structure Calls (expression : String → TypeExpr → String) (Goes : Layer → Prop)
    (function name : String) (layers : List Layer) (input : String) : Prop where
  reached : (∀ l ∈ layers, Goes l) → ∃ front back,
    (∀ t, expression input (Layer.wrapAll layers t) =
      front ++ expression (Layer.value input layers) t ++ back) ∧
    expression input (Layer.wrapAll layers (.named name)) =
      front ++ (function ++ "(" ++ Layer.value input layers ++ ")") ++ back
  hidden : ¬ (∀ l ∈ layers, Goes l) → ∀ t u,
    expression input (Layer.wrapAll layers t) = expression input (Layer.wrapAll layers u)

namespace Calls

variable {params : List String} {name : String}

theorem marker_named (unmarked : Marker.named? name = none) :
    Marker.of? (.named name) = none := by
  simp [Marker.of?, TypeExpr.named, unmarked]

theorem of_layers {expression : String → TypeExpr → String} {Goes : Layer → Prop}
    {function : String} (one : ∀ l, Goes l → ∀ input,
      Spot (fun t => expression input (l.wrap t)) (expression Plan.closureInput))
    (hides : ∀ l, ¬ Goes l → ∀ input t u, expression input (l.wrap t) = expression input (l.wrap u))
    (call : ∀ input, expression input (.named name) = function ++ "(" ++ input ++ ")")
    (layers : List Layer) (input : String) : Calls expression Goes function name layers input where
  reached := by
    intro goes
    obtain ⟨front, back, spot⟩ := Layer.spot_wrapAll one goes input
    exact ⟨front, back, spot, by rw [← call]; exact spot _⟩
  hidden := fun stops => Layer.hidden_wrapAll one hides stops input

theorem decode (own : name ∈ params) (unmarked : Marker.named? name = none) (layers : List Layer)
    (input : String) : Calls (decodeExpression · · params) Layer.Decodes ("decode" ++ name) name
      layers input := by
  refine .of_layers (fun l goes input => Layer.spot_decode input goes)
    (fun l stops input => Layer.hides_decode stops input) (fun input => ?_) layers input
  rw [decodeExpression, Plan.of_parameter (marker_named unmarked) own]
  simp [TypeExpr.named, TypeExpr.resolvedName, Plan.decode, Plan.decodeClosures]

theorem encode (own : name ∈ params) (unmarked : Marker.named? name = none) (layers : List Layer)
    (value : String) : Calls (encodeExpression · · params) (Layer.Encodes params) ("encode" ++ name)
      name layers value := by
  refine .of_layers (fun l goes value => Layer.spot_encode value goes)
    (fun l stops value => Layer.hides_encode stops value) (fun value => ?_) layers value
  rw [encodeExpression, Plan.of_parameter (marker_named unmarked) own, Plan.encode]
  rfl

end Calls

/-- A type argument in the type of a field that has been resolved. It is inside the layers that it
was inside, and the expressions for the field call the functions that are passed in for it. The
decoder may start further inside, so that both are said of all types around the type argument. -/
structure Field.Passes (m : Aliases) (params : List String) (name : String) (layers : List Layer)
    (f : Field) (layers' : List Layer) : Prop where
  type : f.type = Layer.wrapAll layers' (.named name)
  settles : List.Forall₂ (Layer.Settles m params []) layers layers'
  decoding : ∀ inner, inner <:+ layers' → ∀ input,
    Calls (decodeExpression · · params) Layer.Decodes ("decode" ++ name) name inner input
  encoding : ∀ inner, inner <:+ layers' → ∀ value,
    Calls (encodeExpression · · params) (Layer.Encodes params) ("encode" ++ name) name inner value
  decoder : ∀ statements, f.decode params = .ok statements → (∀ l ∈ layers', l.Decodes) →
    ∃ st ∈ statements, ∃ lead, st.expression? = some (lead ++
      decodeExpression f.start.2 (Layer.wrapAll (layers'.drop f.start.1) (.named name)) params)
  encoder : ∀ known statements key?, f.encode params known = .ok (statements, key?) →
    ∃ st ∈ statements, st.expression? = some (encodeExpression f.name f.type params)

/-- A type argument wins over whatever else its name means to the registry. -/
theorem type_argument_wins {r : Registry} {s s' : StructDecl} {name : String}
    (resolved : r.resolveStruct s = .ok s') (own : name ∈ s.parameters)
    (unmarked : Marker.named? name = none) :
    s'.parameters = s.parameters ∧
    List.Forall₂ (fun f f' => ∀ layers, f.type = Layer.wrapAll layers (.named name) →
      ∃ layers', f'.Passes r.aliases s.parameters name layers layers') s.fields s'.fields := by
  obtain ⟨-, parameters, -, fields⟩ := Registry.resolves_of_resolveStruct resolved
  refine ⟨parameters, fields.imp fun f f' ⟨_, resolved⟩ layers typed => ?_⟩
  rw [typed] at resolved
  obtain ⟨layers', t', type, settles, kept⟩ := Layer.resolveIn_wrapAll resolved
  obtain rfl : .named name = t' := Except.ok.inj ((Aliases.resolveIn_shadowed own).symm.trans kept)
  refine ⟨layers', type, settles, fun inner _ input => ?_, fun inner _ value => ?_,
    fun statements decoded goes => ?_, fun known statements key? encoded => ?_⟩
  · exact .decode own unmarked inner input
  · exact .encode own unmarked inner value
  · exact Field.decodes_from_start type rfl (Calls.marker_named unmarked) goes decoded
  · exact Field.encodes_from_start encoded

/-- The type argument has the name of an enum, of a type with codecs and of an alias in a cycle. -/
theorem type_argument_wins_box :
    let r : Registry := {
      codecs := ⟨⟨["T"]⟩, ⟨["T"]⟩⟩
      aliases := ⟨[("T", .named "U"), ("U", .named "T")]⟩
      enums := ⟨[("T", "String")]⟩ }
    let t : TypeExpr := .array (.named "T")
    let s : StructDecl := ⟨"Box", ["T"], [⟨"items", .optional t⟩], []⟩
    r.resolveStruct s = .ok s ∧ "T" ∈ s.parameters ∧ Marker.named? "T" = none ∧
      (∃ front back, decodeExpression "items_field!" t ["T"] = front ++ "decodeT($0)" ++ back) ∧
      ∃ front back, encodeExpression "items" (.optional t) ["T"] =
        front ++ "encodeT($0)" ++ back := by
  intro r t s
  have own : "T" ∈ s.parameters := by decide
  have unmarked : Marker.named? "T" = none := by decide
  have resolved : r.resolveStruct s = .ok s := by
    simp [s, t, Registry.resolveStruct, TypeExpr.optional, TypeExpr.array, TypeExpr.generic,
      TypeExpr.named, Aliases.resolveIn_leaf, Aliases.resolveIn_cons, bind, Except.bind, pure,
      Except.pure]
  cases (type_argument_wins resolved own unmarked).2 with
  | cons field _ =>
    obtain ⟨layers', passes⟩ := field [{ base := "Optional" }, { base := "Array" }] rfl
    obtain rfl : layers' = [{ base := "Optional" }, { base := "Array" }] := by
      cases passes.settles with
      | cons outer rest =>
        cases rest with
        | cons inner rest =>
          cases rest
          rw [outer.alone, inner.alone]
    refine ⟨resolved, own, unmarked, ?_, ?_⟩
    · obtain ⟨front, back, -, text⟩ := (passes.decoding [{ base := "Array" }]
        (List.suffix_cons _ _) "items_field!").reached (by decide)
      exact ⟨front, back, text⟩
    · obtain ⟨front, back, -, text⟩ :=
        (passes.encoding _ (List.suffix_refl _) "items").reached (by decide)
      exact ⟨front, back, text⟩

end SwiftCodec
