import SwiftCodec.Proofs.Codec.Wire

/-!
The calls that a codec makes and the parameters that it declares, read from its text. A value of a
type is coded by a call of the codec of that type, with one closure for each of its arguments, or by
a call of the function that stands for a type argument.
-/
namespace SwiftCodec

/-! ## Readers -/

/-- The expression of which a statement binds, stores or gives back the value; initializers and
messages are no part of a codec. -/
def Statement.expression? : Statement → Option String
  | .bind ⟨_, _, .expression text⟩ | .guardBind ⟨_, _, .expression text⟩ _
  | .ifBind ⟨_, _, .expression text⟩ _ | .store _ text | .giveBack text => some text
  | _ => none

def Statement.calls (s : Statement) : List Call := s.expression?.toList.flatMap Call.inText

/-- The calls in the expressions of a function. -/
def Function.calls (f : Function) : List Call := f.body.flatMap Statement.calls

/-- The parameters in the signature of a function, which has the form of a call. -/
def Function.declared (f : Function) : List String :=
  (Call.inText f.signature).flatMap (·.arguments)

/-! ## Calls for a value -/

/-- What a field is decoded from, and as which type. A field with an option is decoded without it,
once there is anything to decode. -/
def Field.decoded (f : Field) : String × TypeExpr :=
  match f.type.shape with
  | .ok (.optional inner) => (f.name ++ "_field!", inner)
  | _ => (f.name ++ "_field", f.type)

/-- One of the two ways of coding: what of a field is coded, and what the calls look like. -/
structure Direction where
  /-- The function of a codec that is called. -/
  function : String
  /-- The expression that codes a value of a type. -/
  expression (value : String) (t : TypeExpr) (params : List String) : String
  /-- A field as a value of a type. -/
  subject (f : Field) : String × TypeExpr
  /-- The call for a value of a type argument. -/
  passed (name value : String) : Call
  /-- The call for a value of a type with a codec of its own. -/
  own (name value : String) (closures : List String) : Call

namespace Direction

def decoding : Direction where
  function := decodeName
  expression := decodeExpression
  subject := Field.decoded
  passed name input := ⟨"decode" ++ name, [input]⟩
  own name input closures := ⟨name ++ "." ++ decodeName, closures ++ [input]⟩

def encoding : Direction where
  function := encodeName
  expression := encodeExpression
  subject f := (f.name, f.type)
  passed name value := ⟨"encode" ++ name, [value]⟩
  own _ value closures := ⟨value ++ "." ++ encodeName, closures⟩

/-- The text inside the closure for a type; `$0` is what the closure is applied to. -/
def body (way : Direction) (params : List String) (t : TypeExpr) : String :=
  way.expression "$0" t params

def closure (way : Direction) (params : List String) (t : TypeExpr) : String :=
  Plan.closure (way.body params t)

/-- The call of the codec of a type, with a closure for each of its arguments. -/
def call (way : Direction) (params : List String) (t : TypeExpr) (value : String) : Call :=
  way.own t.resolvedName value (t.args.map (way.closure params))

end Direction

/-- The calls that code a value of a type, in the order in which they are read. A value of a type
argument is coded by a call of the function that was passed in for it. Any other takes a call of the
codec of its type; behind it are the calls in its closures, each of which codes what the closure is
applied to as a value of its argument. `Fits` is what is asked of the call of a codec. -/
inductive Codes (way : Direction) (Fits : TypeExpr → Call → Prop) (params : List String) :
    String → TypeExpr → List Call → Prop where
  | asIs {value : String} {t : TypeExpr} (marked : (Marker.of? t).isSome) :
      Codes way Fits params value t []
  | passed {value : String} {t : TypeExpr} (unmarked : Marker.of? t = none)
      (own : t.resolvedName ∈ params) :
      Codes way Fits params value t [way.passed t.resolvedName value]
  | own {value : String} {t : TypeExpr} (unmarked : Marker.of? t = none)
      (foreign : t.resolvedName ∉ params) (fits : Fits t (way.call params t value))
      (inside : ∀ a ∈ t.args, Codes way Fits params "$0" a (Call.inText (way.body params a))) :
      Codes way Fits params value t
        (way.call params t value :: t.args.flatMap fun a => Call.inText (way.body params a))

/-- The calls in a function code fields, one field after the other. -/
def Function.CodesFields (f : Function) (way : Direction) (Fits : TypeExpr → Call → Prop)
    (params : List String) (fields : List Field) : Prop :=
  ∃ parts : List (List Call),
    List.Forall₂ (fun field calls =>
      Codes way Fits params (way.subject field).1 (way.subject field).2 calls) fields parts ∧
    f.calls = parts.flatten

/-! ## Expressions -/

def encodeClosure (t : TypeExpr) (params : List String) : String :=
  Plan.closure (encodeExpression Plan.closureInput t params)

namespace TypeExpr

/-- In no node does a type argument of the struct carry arguments. -/
def Bare (params : List String) (t : TypeExpr) : Prop :=
  ∀ n ∈ t.nodes, n.resolvedName ∈ params → n.args = []

theorem Bare.arg {params : List String} {t a : TypeExpr} (bare : t.Bare params) (arg : a ∈ t.args) :
    a.Bare params :=
  fun n inside => bare n (mem_nodes_of_arg arg inside)

/-- At every node that has a codec of its own, the call of that fits. -/
def Fitting (way : Direction) (Fits : TypeExpr → Call → Prop) (params : List String)
    (t : TypeExpr) : Prop :=
  ∀ n ∈ t.nodes, n.resolvedName ∉ params → ∀ value, Fits n (way.call params n value)

theorem Fitting.arg {way : Direction} {Fits : TypeExpr → Call → Prop} {params : List String}
    {t a : TypeExpr} (fitting : t.Fitting way Fits params) (arg : a ∈ t.args) :
    a.Fitting way Fits params :=
  fun n inside => fitting n (mem_nodes_of_arg arg inside)

end TypeExpr

/-- What is decoded or encoded: a path, which may be unwrapped. -/
def Operand (s : String) : Prop := s ≠ "" ∧ Within (fun c => Call.isPath c ∨ c = '!') s

namespace Operand

variable {s : String}

theorem of_path (some : s ≠ "") (path : Within (Call.isPath ·) s) : Operand s :=
  ⟨some, path.mono fun _ => .inl⟩

theorem inert (h : Operand s) : Within Call.Inert s := by
  refine h.2.mono ?_
  rintro c (path | rfl)
  · exact Call.inert_of_isPath path
  · decide

theorem whole (h : Operand s) : Call.Whole s := ⟨.of_inert h.inert, .of_within h.2 h.1 (by decide)⟩

end Operand

namespace Plan

theorem whole_closure {body : String} (through : Call.Through 1 body) :
    Call.Whole (closure body) := by
  have text : closure body = "\x7b" ++ (" " ++ body ++ " ") ++ "\x7d" := by
    apply String.toList_inj.mp
    simp [closure]
  have inside : Call.Through 1 (" " ++ body ++ " ") :=
    ((Call.Through.of_inert (by decide)).append through).append (.of_inert (by decide))
  have opening : "\x7b".toList = ['\x7b'] := by decide
  have closing : "\x7d".toList = ['\x7d'] := by decide
  rw [text]
  exact ⟨.bracket opening closing (by decide) (by decide) (by decide) inside,
    ((show Visible "\x7b" by decide).append _).append _⟩

/-- A call that is one argument of another if its own arguments are. -/
theorem through_call {callee : String} (path : Within (Call.isPath ·) callee) {parts : List String}
    (whole : ∀ p ∈ parts, Call.Whole p) :
    Call.Through 0 (callee ++ "(" ++ String.intercalate ", " parts ++ ")") := by
  have inside : Call.Through 1 (String.intercalate ", " parts) :=
    .intercalate fun p member => (whole p member).through.mono
  have opening : "(".toList = ['('] := by decide
  have closing : ")".toList = [')'] := by decide
  have brackets : Call.Through 0 ("(" ++ String.intercalate ", " parts ++ ")") :=
    .bracket opening closing (by decide) (by decide) (by decide) inside
  have front : Call.Through 0 callee := .of_inert (Call.inert_of_path path)
  simpa only [String.append_assoc] using front.append brackets

theorem reads_closure {body : String} {calls : List Call} (h : Call.Reads body calls) :
    Call.Reads (closure body) calls := by
  have opening : "\x7b " = "\x7b" ++ " " := by decide
  have begun : Call.Reads ("\x7b" ++ " " ++ body) calls := h.after (by decide)
  rw [closure, opening, ← List.append_nil calls]
  refine begun.append (.plain (by decide)) (by decide) ?_
  simp [Call.Ends]
  decide

theorem path_closureInput : Within (Call.isPath ·) closureInput := by decide

/-- An expression is one argument as it stands, and its calls are the same wherever it stands. -/
structure Expression (text : String) : Prop where
  through : Call.Through 0 text
  reads : Call.Reads text (Call.inText text)

theorem expression_of_inert {s : String} (inert : Within Call.Inert s) :
    Expression s ∧ Call.inText s = [] := by
  have reads := Call.Reads.plain (Call.unbracketed_of_inert inert)
  exact ⟨⟨.of_inert inert, by rwa [reads.inText]⟩, reads.inText⟩

/-- A call whose arguments are closures and, behind them, operands. -/
theorem expression_of_call {callee : String} (path : Within (Call.isPath ·) callee)
    (named : callee ≠ "") {bodies operands : List String}
    (expressions : ∀ body ∈ bodies, Expression body) (plain : ∀ p ∈ operands, Operand p) :
    let parts := bodies.map closure ++ operands
    let text := callee ++ "(" ++ String.intercalate ", " parts ++ ")"
    Expression text ∧ Call.inText text = ⟨callee, parts⟩ :: bodies.flatMap Call.inText := by
  intro parts text
  have whole : ∀ p ∈ parts, Call.Whole p := List.forall_mem_append.mpr
    ⟨List.forall_mem_map.mpr fun body member =>
        whole_closure (expressions body member).through.mono,
      fun p member => (plain p member).whole⟩
  have closed (body : String) (member : body ∈ bodies) :=
    reads_closure (expressions body member).reads
  have silent (p : String) (member : p ∈ operands) := expression_of_inert (plain p member).inert
  have each : ∀ p ∈ parts, Call.Reads p (Call.inText p) := List.forall_mem_append.mpr
    ⟨List.forall_mem_map.mpr fun body member => (closed body member).inText ▸ closed body member,
      fun p member => (silent p member).1.reads⟩
  have inside : parts.flatMap Call.inText = bodies.flatMap Call.inText := by
    have first : (bodies.map closure).flatMap Call.inText = bodies.flatMap Call.inText := by
      rw [List.flatMap_map]
      exact List.flatMap_congr fun body member => (closed body member).inText
    have last : operands.flatMap Call.inText = [] :=
      List.flatMap_eq_nil_iff.mpr fun p member => (silent p member).2
    rw [List.flatMap_append, first, last, List.append_nil]
  have reads := Call.Reads.call path named whole (.intercalate each)
  have calls := reads.inText
  exact ⟨⟨through_call path whole, by rwa [calls]⟩, by rw [calls, inside]⟩

variable {params : List String} {t : TypeExpr} {Fits : TypeExpr → Call → Prop}

theorem decodeClosures_args (args : List TypeExpr) (input : String) :
    decodeClosures (args.map (of params)) ++ [input] =
      args.map (decodeClosure · params) ++ [input] := by
  rw [decodeClosures_eq_map, List.map_map]
  rfl

theorem encodeClosures_args (args : List TypeExpr) :
    encodeClosures (args.map (of params)) = args.map (encodeClosure · params) := by
  rw [encodeClosures_eq_map, List.map_map]
  rfl

/-- The call of a codec, whose closures are expressions for the arguments of the type. -/
theorem codes_own {way : Direction} {value text callee : String} {operands : List String}
    (unmarked : Marker.of? t = none) (foreign : t.resolvedName ∉ params)
    (fitting : t.Fitting way Fits params) (path : Within (Call.isPath ·) callee)
    (named : callee ≠ "") (plain : ∀ p ∈ operands, Operand p)
    (call : way.call params t value = ⟨callee, t.args.map (way.closure params) ++ operands⟩)
    (made : text = callee ++ "(" ++
      String.intercalate ", " (t.args.map (way.closure params) ++ operands) ++ ")")
    (inside : ∀ a ∈ t.args, Expression (way.body params a) ∧
      Codes way Fits params "$0" a (Call.inText (way.body params a))) :
    Expression text ∧ Codes way Fits params value t (Call.inText text) := by
  have closures : t.args.map (way.closure params) = (t.args.map (way.body params)).map closure := by
    rw [List.map_map]
    rfl
  obtain ⟨expression, calls⟩ := expression_of_call path named
    (List.forall_mem_map.mpr fun a arg => (inside a arg).1) plain
  rw [← closures, ← made, ← call, List.flatMap_map] at calls
  rw [← closures, ← made] at expression
  refine ⟨expression, calls ▸ ?_⟩
  exact .own unmarked foreign (fitting t t.self_mem_nodes foreign value) fun a arg =>
    (inside a arg).2

/-- Decoding a type is a cast or one call, with the calls in its closures behind it. -/
theorem codes_decode (covered : t.Over (Within (Call.isPath ·))) (bare : t.Bare params)
    (fitting : t.Fitting .decoding Fits params) {input : String} (operand : Operand input) :
    Expression (decodeExpression input t params) ∧
      Codes .decoding Fits params input t (Call.inText (decodeExpression input t params)) := by
  -- That the text is one argument is what the type around it needs to have its closures counted.
  induction t generalizing input with
  | node base target args ih =>
    have name := covered.resolvedName
    have operands := List.forall_mem_singleton.mpr operand
    cases marked : Marker.of? ⟨base, target, args⟩ with
    | some kind =>
      have inert : Within Call.Inert (decodeExpression input ⟨base, target, args⟩ params) := by
        rw [decodeExpression, of_marker marked]
        cases kind <;>
          exact (operand.inert.append (by decide)).append (Call.inert_of_path name)
      obtain ⟨expression, silent⟩ := expression_of_inert inert
      exact ⟨expression, silent ▸ .asIs (by rw [marked]; rfl)⟩
    | none =>
      by_cases own : TypeExpr.resolvedName ⟨base, target, args⟩ ∈ params
      · -- A function that was passed in takes the input and nothing else.
        obtain rfl : args = [] := bare _ (TypeExpr.self_mem_nodes _) own
        have path := (show Within (Call.isPath ·) "decode" by decide).append name
        obtain ⟨expression, calls⟩ :=
          expression_of_call path (by simp) (List.forall_mem_nil _) operands
        rw [decodeExpression, of_parameter marked own]
        exact ⟨expression, calls ▸ .passed marked own⟩
      · have path : Within (Call.isPath ·)
            (TypeExpr.resolvedName ⟨base, target, args⟩ ++ "." ++ decodeName) :=
          (name.append (by decide)).append (by decide)
        refine codes_own marked own fitting path (by simp [decodeName]) operands rfl ?_ fun a arg =>
          ih a arg (covered.arg arg) (bare.arg arg) (fitting.arg arg)
            (.of_path (by decide) path_closureInput)
        rw [decodeExpression, of_own marked own, decode, decodeClosures_args]
        rfl

theorem codes_encode (covered : t.Over (Within (Call.isPath ·)))
    (fitting : t.Fitting .encoding Fits params) {value : String} (some : value ≠ "")
    (path : Within (Call.isPath ·) value) :
    Expression (encodeExpression value t params) ∧
      Codes .encoding Fits params value t (Call.inText (encodeExpression value t params)) := by
  induction t generalizing value with
  | node base target args ih =>
    have operand := Operand.of_path some path
    cases marked : Marker.of? ⟨base, target, args⟩ with
    | some kind =>
      obtain ⟨expression, silent⟩ := expression_of_inert operand.inert
      rw [encodeExpression, of_marker marked, encode]
      exact ⟨expression, silent ▸ .asIs (by rw [marked]; rfl)⟩
    | none =>
      by_cases own : TypeExpr.resolvedName ⟨base, target, args⟩ ∈ params
      · have callee := (show Within (Call.isPath ·) "encode" by decide).append covered.resolvedName
        obtain ⟨expression, calls⟩ := expression_of_call callee (by simp) (List.forall_mem_nil _)
          (List.forall_mem_singleton.mpr operand)
        rw [List.map_nil, List.nil_append, String.intercalate_singleton] at expression calls
        rw [encodeExpression, of_parameter marked own, encode]
        exact ⟨expression, calls ▸ .passed marked own⟩
      · have callee : Within (Call.isPath ·) (value ++ "." ++ encodeName) :=
          (path.append (by decide)).append (by decide)
        refine codes_own marked own fitting callee (by simp [encodeName]) (List.forall_mem_nil _)
          ?_ ?_ fun a arg =>
            ih a arg (covered.arg arg) (fitting.arg arg) (by decide) path_closureInput
        · rw [List.append_nil]
          rfl
        · rw [encodeExpression, of_own marked own, encode, encodeClosures_args, List.append_nil]
          rfl

end Plan

/-! ## Calls of a function -/

/-- A statement that takes an entry and one that binds a value, with a blank line behind them. -/
theorem Statement.calls_between {first bound : Statement} {text : String}
    (entry : first.expression? = none) (expression : bound.expression? = some text) :
    [first, bound, .blank].flatMap Statement.calls = Call.inText text := by
  have blank : Statement.blank.expression? = none := rfl
  simp [Statement.calls, entry, expression, blank]

namespace Field

variable {f : Field} {params : List String} {Fits : TypeExpr → Call → Prop}

theorem decoded_of_optional {inner : TypeExpr} (shaped : f.type.shape = .ok (.optional inner)) :
    f.decoded = (f.name ++ "_field!", inner) := by
  rw [decoded, shaped]

theorem decoded_of_required {shape : Shape} (shaped : f.type.shape = .ok shape)
    (required : ∀ inner, shape ≠ .optional inner) : f.decoded = (f.name ++ "_field", f.type) := by
  rw [decoded, shaped]
  cases shape with
  | optional inner => exact absurd rfl (required inner)
  | plain | array | dictionary | generic => rfl

theorem codes_decode {statements : List Statement} (word : IsWord f.name)
    (covered : f.type.Over (Within (Call.isPath ·))) (bare : f.type.Bare params)
    (fitting : f.type.Fitting .decoding Fits params) (decodes : f.decode params = .ok statements) :
    Codes .decoding Fits params f.decoded.1 f.decoded.2
      (statements.flatMap Statement.calls) := by
  have named : Within (Call.isPath ·) f.name := word.mono fun _ => Call.isPath_of_isTail
  have raw : Operand (f.name ++ "_field") := .of_path (by simp) (named.append (by decide))
  have front := Call.unbracketed_of_inert raw.inert
  obtain ⟨shape, shaped, h⟩ := bind_eq_ok.mp decodes
  cases shape with
  | optional inner =>
    cases h
    have arg := TypeExpr.inner_mem_args shaped
    have unwrapped : Operand (f.name ++ "_field" ++ "!") := ⟨by simp, raw.2.append (by decide)⟩
    obtain ⟨expression, codes⟩ :=
      Plan.codes_decode (covered.arg arg) (bare.arg arg) (fitting.arg arg) unwrapped
    -- In front of the value is the test whether there is one.
    have tested : Within (· ≠ '(') (f.name ++ "_field" ++ " == nil || " ++ (f.name ++ "_field") ++
        "! is NSNull ? nil :") :=
      ((front.append (by decide)).append front).append (by decide)
    have blank : "! is NSNull ? nil : " = "! is NSNull ? nil :" ++ " " := by decide
    have value : f.name ++ "_field!" = f.name ++ "_field" ++ "!" := by
      rw [String.append_assoc]
      rfl
    rw [decoded_of_optional shaped, value, Statement.calls_between rfl rfl, blank,
      ← String.append_assoc, (expression.reads.after tested).inText]
    exact codes
  | plain | array | dictionary | generic =>
    cases h
    rw [decoded_of_required shaped (by simp)]
    cases marked : Marker.of? f.type with
    | none =>
      rw [Statement.calls_between rfl rfl]
      exact (Plan.codes_decode covered bare fitting raw).2
    | some kind =>
      have type : Within (· ≠ '(') f.type.spell :=
        TypeExpr.within_spell (by decide) (covered.mono fun n => Call.unbracketed_of_path)
      have silent : Codes .decoding Fits params (f.name ++ "_field") f.type [] :=
        .asIs (by rw [marked]; rfl)
      cases kind with
      | passThrough =>
        rw [Statement.calls_between rfl rfl, (Call.Reads.plain front).inText]
        exact silent
      | cast =>
        have cast := (front.append (t := " as? ") (by decide)).append type
        rw [Statement.calls_between rfl rfl, (Call.Reads.plain cast).inText]
        exact silent

theorem codes_store (word : IsWord f.name) (some : f.name ≠ "")
    (covered : f.type.Over (Within (Call.isPath ·)))
    (fitting : f.type.Fitting .encoding Fits params) (key? : Option String) :
    Codes .encoding Fits params f.name f.type
      ((f.store params key?).flatMap Statement.calls) := by
  have path : Within (Call.isPath ·) f.name := word.mono fun _ => Call.isPath_of_isTail
  have stored : (f.store params key?).flatMap Statement.calls =
      Call.inText (encodeExpression f.name f.type params) := by
    cases key? <;> simp [store, Statement.calls, Statement.expression?]
  rw [stored]
  exact (Plan.codes_encode covered fitting some path).2

end Field

namespace StructDecl

variable {s : StructDecl} {d e : Function} {known : List EnumDecl} {ws : List Warning}
  {Fits : TypeExpr → Call → Prop}

theorem decoder_codes (words : ∀ n ∈ s.fieldNames, IsWord n)
    (covered : ∀ f ∈ s.fields, f.type.Over (Within (Call.isPath ·)))
    (bare : ∀ f ∈ s.fields, f.type.Bare s.parameters)
    (fitting : ∀ f ∈ s.fields, f.type.Fitting .decoding Fits s.parameters)
    (decodes : s.decoder = .ok d) : d.CodesFields .decoding Fits s.parameters s.fields := by
  obtain ⟨parts, decoded, h⟩ := bind_eq_ok.mp decodes
  cases h
  refine ⟨parts.map (·.flatMap Statement.calls), List.forall₂_map_right_iff.mpr ?_, ?_⟩
  · have each := (List.forall₂_and_left _ _).mpr ⟨fun _ => id, mapM_eq_ok.mp decoded⟩
    refine each.imp fun f part ⟨field, decodes⟩ => ?_
    exact Field.codes_decode (words f.name (List.mem_map_of_mem field)) (covered f field)
      (bare f field) (fitting f field) decodes
  · have guarded : Call.inText "json as? [String : AnyObject]" = [] := by decide
    have inside : parts.flatten.flatMap Statement.calls =
        (parts.map (·.flatMap Statement.calls)).flatten := by
      rw [← List.flatMap_id', List.flatMap_assoc, List.flatMap_def]
    simp only [Function.calls, List.flatMap_append, inside]
    simp [Statement.calls, Statement.expression?, guarded]

theorem encoder_codes (words : ∀ n ∈ s.fieldNames, IsWord n ∧ n ≠ "")
    (covered : ∀ f ∈ s.fields, f.type.Over (Within (Call.isPath ·)))
    (fitting : ∀ f ∈ s.fields, f.type.Fitting .encoding Fits s.parameters)
    (encodes : s.encoder known = .ok (e, ws)) :
    e.CodesFields .encoding Fits s.parameters s.fields := by
  obtain ⟨marks, marked, rfl, -⟩ := encoder_eq_ok.mp encodes
  have fields := fields_eq_of_marked marked
  refine ⟨marks.map fun m => (m.1.store s.parameters m.2).flatMap Statement.calls, ?_, ?_⟩
  · rw [fields]
    refine List.forall₂_map_left_iff.mpr (List.forall₂_map_right_iff.mpr ?_)
    refine List.forall₂_same.mpr fun m member => ?_
    have field : m.1 ∈ s.fields := fields ▸ List.mem_map_of_mem member
    obtain ⟨word, some⟩ := words m.1.name (List.mem_map_of_mem field)
    exact Field.codes_store word some (covered _ field) (fitting _ field) m.2
  · have given : Call.inText "dict" = [] := by decide
    simp only [Function.calls, encoderOf, List.flatMap_append, stores, List.flatMap_assoc,
      ← List.flatMap_def]
    simp [Statement.calls, Statement.expression?, given]

end StructDecl

/-! ## Declared parameters -/

namespace Function

theorem length_unlabelled (parameters : List String) :
    (unlabelled parameters).length = parameters.length := by
  cases parameters <;> simp [unlabelled]

/-- Parameters without brackets and commas are read back from the signature. -/
theorem declared_eq {f : Function} (front name : String)
    (opening : f.opening = front ++ " " ++ name) (plain : Within (· ≠ '(') front)
    (path : Within (Call.isPath ·) name) (named : name ≠ "")
    (parameters : ∀ p ∈ f.parameters, Within Call.Inert p ∧ Visible p)
    (result : Within (· ≠ '(') f.result) : f.declared = unlabelled f.parameters := by
  have inert : ∀ p ∈ unlabelled f.parameters, Within Call.Inert p ∧ Visible p := by
    cases listed : f.parameters with
    | nil => exact List.forall_mem_nil _
    | cons p ps =>
      rw [listed] at parameters
      obtain ⟨first, others⟩ := List.forall_mem_cons.mp parameters
      refine List.forall_mem_cons.mpr ⟨first, fun text member => ?_⟩
      obtain ⟨q, other, rfl⟩ := List.mem_map.mp member
      exact ⟨(show Within Call.Inert "_ " by decide).append (others q other).1,
        (show Visible "_ " by decide).append q⟩
  have whole (p : String) (member : p ∈ unlabelled f.parameters) : Call.Whole p :=
    ⟨.of_inert (inert p member).1, (inert p member).2⟩
  have inside : Within (· ≠ '(') (String.intercalate ", " (unlabelled f.parameters)) :=
    .intercalate (by decide) fun p member => Call.unbracketed_of_inert (inert p member).1
  have call := Call.Reads.after plain (Call.Reads.call path named whole (.plain inside))
  have behind : Call.Reads (" -> " ++ f.result) [] :=
    .plain ((show Within (· ≠ '(') " -> " by decide).append result)
  have text : f.signature = front ++ " " ++
      (name ++ "(" ++ String.intercalate ", " (unlabelled f.parameters) ++ ")") ++
        (" -> " ++ f.result) := by
    have arrow : ") -> " = ")" ++ " -> " := by decide
    rw [signature, opening, arrow]
    simp only [String.append_assoc]
  have ends : Call.Ends (" -> " ++ f.result).toList := by
    simp [Call.Ends]
    decide
  rw [declared, text, (call.append behind (by simp) ends).inText]
  simp

/-- A parameter that names a type argument twice, as the name and in the type of a closure. -/
theorem plain_parameter {front middle back t : String} (path : Within (Call.isPath ·) t)
    (begins : Within Call.Inert front ∧ Visible front)
    (rest : Within Call.Inert middle ∧ Within Call.Inert back) :
    Within Call.Inert (front ++ t ++ middle ++ t ++ back) ∧
      Visible (front ++ t ++ middle ++ t ++ back) := by
  have inert := Call.inert_of_path path
  exact ⟨(((begins.1.append inert).append rest.1).append inert).append rest.2,
    (((begins.2.append _).append _).append _).append _⟩

theorem opening_decoder :
    "static func " ++ decodeName = "static func" ++ " " ++ decodeName := by decide

theorem opening_encoder : "func " ++ encodeName = "func" ++ " " ++ encodeName := by decide

end Function

namespace StructDecl

variable {s : StructDecl} {d e : Function} {known : List EnumDecl} {ws : List Warning}

theorem declared_decoder (name : Within (Call.isPath ·) s.name)
    (parameters : ∀ p ∈ s.parameters, Within (Call.isPath ·) p) (decodes : s.decoder = .ok d) :
    d.declared = Function.unlabelled s.decodeParameters := by
  obtain ⟨parts, -, h⟩ := bind_eq_ok.mp decodes
  cases h
  refine Function.declared_eq "static func" decodeName Function.opening_decoder (by decide)
    (by decide) (by decide) (fun p member => ?_) ?_
  · rcases List.mem_append.mp member with member | member
    · obtain ⟨t, parameter, rfl⟩ := List.mem_map.mp member
      exact Function.plain_parameter (parameters t parameter) (by decide) (by decide)
    · rw [List.mem_singleton.mp member]
      decide
  · exact (Call.unbracketed_of_path name).append (by decide)

theorem declared_encoder (parameters : ∀ p ∈ s.parameters, Within (Call.isPath ·) p)
    (encodes : s.encoder known = .ok (e, ws)) :
    e.declared = Function.unlabelled s.encodeParameters := by
  obtain ⟨marks, -, rfl, -⟩ := encoder_eq_ok.mp encodes
  refine Function.declared_eq "func" encodeName Function.opening_encoder (by decide) (by decide)
    (by decide) (fun p member => ?_) (show Within (· ≠ '(') "[String: AnyObject]" by decide)
  obtain ⟨t, parameter, rfl⟩ := List.mem_map.mp member
  exact Function.plain_parameter (parameters t parameter) (by decide) (by decide)

end StructDecl

namespace EnumDecl

variable {e : EnumDecl}

theorem declared_decoder (name : Within (Call.isPath ·) e.name) :
    e.decoder.declared = ["json: AnyObject"] := by
  refine Function.declared_eq "static func" decodeName Function.opening_decoder (by decide)
    (by decide) (by decide) ?_ ?_
  · exact List.forall_mem_singleton.mpr (by decide)
  · exact (Call.unbracketed_of_path name).append (by decide)

theorem declared_encoder (raw : Within (Call.isPath ·) e.rawType) : e.encoder.declared = [] :=
  Function.declared_eq "func" encodeName Function.opening_encoder (by decide) (by decide)
    (by decide) (List.forall_mem_nil _) (Call.unbracketed_of_path raw)

theorem calls_eq_nil (raw : Within (Call.isPath ·) e.rawType) :
    e.decoder.calls = [] ∧ e.encoder.calls = [] := by
  have cast : Within (· ≠ '(') ("json as? " ++ e.rawType) :=
    (show Within (· ≠ '(') "json as? " by decide).append (Call.unbracketed_of_path raw)
  have read := (Call.Reads.plain cast).inText
  have failed : Call.inText "nil" = [] := by decide
  have given : Call.inText "rawValue" = [] := by decide
  constructor <;>
    simp [Function.calls, decoder, encoder, Statement.calls, Statement.expression?, read, failed,
      given]

end EnumDecl

end SwiftCodec
