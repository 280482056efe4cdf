import SwiftCodec.Codec.Enum
import SwiftCodec.Output.Listing
import SwiftCodec.Proofs.Codec.Marks
import SwiftCodec.Proofs.Codec.Plans

/-!
What generated lines are made of: pieces of Swift that are always the same, and names. Each step of
generation weaves what it is given into such pieces and adds nothing else.
-/
namespace SwiftCodec

/-- The pieces of Swift that do not depend on any declaration. -/
def pieces : List String := [
  "  ", "    ", "extension ", " \x7b", "\x7d", "static func ", "func ", decodeName, encodeName,
  "(", ")", ", ", ") -> ", "_ ", "decode", "encode", ": AnyObject -> ", "?", "json: AnyObject",
  ": ", " -> AnyObject", "[String: AnyObject]",
  "let ", "guard let ", "if let ", " = ", " else \x7b", "  assertionFailure(\"", "\")",
  "  return nil", "  return ", "return ", "dict[\"", "\"]", "dict",
  "var dict: [String: AnyObject] = [:]", keyWarningText,
  "field '", "' is missing", "' is not a ", "json not a ", "dictionary",
  "json as? [String : AnyObject]", "_field", "AnyObject", "AnyObject?", " == nil || ",
  "! is NSNull ? nil : ", "!", " as? ", " as ", ".", "\x7b ", " \x7d", "$0",
  "[", "]", ":", "<", ">",
  "value", "json as? ", "(rawValue: value)", "nil", "rawValue"]

/-- A text of such pieces and of names with a property. -/
inductive Woven (P : String → Prop) : String → Prop where
  | nil : Woven P ""
  | piece {s text : String} (fixed : s ∈ pieces) (rest : Woven P text) : Woven P (s ++ text)
  | name {n text : String} (named : P n) (rest : Woven P text) : Woven P (n ++ text)

namespace Woven

variable {P Q : String → Prop} {s t : String}

theorem append (hs : Woven P s) (ht : Woven P t) : Woven P (s ++ t) := by
  induction hs with
  | nil => rwa [String.empty_append]
  | piece fixed _ ih =>
    rw [String.append_assoc]
    exact .piece fixed ih
  | name named _ ih =>
    rw [String.append_assoc]
    exact .name named ih

theorem fixed (h : s ∈ pieces) : Woven P s := by
  rw [← String.append_empty (s := s)]
  exact .piece h .nil

theorem of_name (h : P s) : Woven P s := by
  rw [← String.append_empty (s := s)]
  exact .name h .nil

theorem mono (more : ∀ n, P n → Q n) (h : Woven P s) : Woven Q s := by
  induction h with
  | nil => exact .nil
  | piece fixed _ ih => exact .piece fixed ih
  | name named _ ih => exact .name (more _ named) ih

theorem intercalate {texts : List String} (hs : Woven P s) (h : ∀ t ∈ texts, Woven P t) :
    Woven P (s.intercalate texts) := by
  induction texts with
  | nil =>
    rw [String.intercalate_nil]
    exact .nil
  | cons first rest ih =>
    obtain ⟨head, tail⟩ := List.forall_mem_cons.mp h
    cases rest with
    | nil => rwa [String.intercalate_singleton]
    | cons second rest =>
      rw [String.intercalate_cons_cons]
      exact (head.append hs).append (ih tail)

/-- What holds of all characters of pieces and names holds of those of the text. -/
theorem forall_char {C : Char → Prop} (pieces : ∀ s ∈ pieces, ∀ c ∈ s.toList, C c)
    (names : ∀ n, P n → ∀ c ∈ n.toList, C c) (h : Woven P s) : ∀ c ∈ s.toList, C c := by
  induction h with
  | nil => simp
  | piece fixed _ ih =>
    intro c member
    rcases List.mem_append.mp (String.toList_append ▸ member) with here | later
    · exact pieces _ fixed c here
    · exact ih c later
  | name named _ ih =>
    intro c member
    rcases List.mem_append.mp (String.toList_append ▸ member) with here | later
    · exact names _ named c here
    · exact ih c later

end Woven

variable {P : String → Prop}

/-! ## Types and expressions -/

namespace TypeExpr

theorem woven_spellWith {base : String} (named : P base) {args : List String}
    (woven : ∀ a ∈ args, Woven P a) : Woven P (spellWith base args) := by
  have head := Woven.of_name named
  match args with
  | [] => exact head
  | [a] =>
    have inner := woven a (by simp)
    simp only [spellWith]
    split_ifs
    · refine inner.append ?_
      exact .fixed (by decide)
    · refine (Woven.append ?_ inner).append ?_ <;> exact .fixed (by decide)
    · refine ((head.append ?_).append inner).append ?_ <;> exact .fixed (by decide)
  | [a, b] =>
    have first := woven a (by simp)
    have second := woven b (by simp)
    simp only [spellWith]
    split_ifs
    · refine (((Woven.append ?_ first).append ?_).append second).append ?_ <;>
        exact .fixed (by decide)
    · refine ((((head.append ?_).append first).append ?_).append second).append ?_ <;>
        exact .fixed (by decide)
  | a :: b :: c :: rest =>
    have inner : Woven P (String.intercalate ", " (a :: b :: c :: rest)) :=
      .intercalate (.fixed (by decide)) woven
    simp only [spellWith]
    refine ((head.append ?_).append inner).append ?_ <;> exact .fixed (by decide)

/-- Both names of every node, the one that is spelled and the one that is coded, are among the
names. -/
def Over (P : String → Prop) (t : TypeExpr) : Prop :=
  ∀ n ∈ t.nodes, P n.base ∧ ∀ a ∈ n.target, P a

instance [DecidablePred P] (t : TypeExpr) : Decidable (t.Over P) :=
  inferInstanceAs (Decidable (∀ n ∈ t.nodes, P n.base ∧ ∀ a ∈ n.target, P a))

theorem Over.here {t : TypeExpr} (covered : t.Over P) : P t.base := (covered t t.self_mem_nodes).1

theorem Over.resolvedName {t : TypeExpr} (covered : t.Over P) : P t.resolvedName := by
  obtain ⟨base, target⟩ := covered t t.self_mem_nodes
  unfold TypeExpr.resolvedName
  cases named : t.target with
  | none => exact base
  | some a => exact target a named

theorem Over.arg {t a : TypeExpr} (covered : t.Over P) (arg : a ∈ t.args) : a.Over P :=
  fun n inside => covered n (mem_nodes_of_arg arg inside)

theorem Over.mono {Q : String → Prop} (more : ∀ n, P n → Q n) {t : TypeExpr} (covered : t.Over P) :
    t.Over Q :=
  fun n inside => (covered n inside).imp (more _) fun target a named => more a (target a named)

theorem woven_spell {t : TypeExpr} (covered : t.Over P) : Woven P t.spell := by
  induction t with
  | node base target args ih =>
    rw [spell, spellAll_eq_map]
    refine woven_spellWith covered.here fun text member => ?_
    obtain ⟨a, arg, rfl⟩ := List.mem_map.mp member
    exact ih a arg (covered.arg arg)

end TypeExpr

namespace Plan

theorem woven_closure {body : String} (woven : Woven P body) : Woven P (closure body) := by
  unfold closure
  refine (Woven.append ?_ woven).append ?_ <;> exact .fixed (by decide)

theorem decodeClosures_eq_map (ps : List Plan) :
    decodeClosures ps = ps.map fun p => closure (decode closureInput p) := by
  induction ps with
  | nil => rfl
  | cons p ps ih => rw [decodeClosures, ih, List.map_cons]

theorem encodeClosures_eq_map (ps : List Plan) :
    encodeClosures ps = ps.map fun p => closure (encode closureInput p) := by
  induction ps with
  | nil => rfl
  | cons p ps ih => rw [encodeClosures, ih, List.map_cons]

/-- The expression decodes by names of the type and fixed pieces. -/
theorem woven_decode {params : List String} {t : TypeExpr} (covered : t.Over P) {input : String}
    (woven : Woven P input) : Woven P ((of params t).decode input) := by
  induction t generalizing input with
  | node base target args ih =>
    have name := Woven.of_name covered.resolvedName
    have closures : Woven P (String.intercalate ", "
        (decodeClosures (args.map (of params)) ++ [input])) := by
      refine .intercalate (.fixed (by decide)) fun text member => ?_
      rw [decodeClosures_eq_map, List.map_map] at member
      rcases List.mem_append.mp member with closed | last
      · obtain ⟨a, arg, rfl⟩ := List.mem_map.mp closed
        exact woven_closure (ih a arg (covered.arg arg) (.fixed (by decide)))
      · rwa [List.mem_singleton.mp last]
    cases marked : Marker.of? ⟨base, target, args⟩ with
    | some kind =>
      rw [of_marker marked]
      cases kind <;> refine (woven.append ?_).append name <;> exact .fixed (by decide)
    | none =>
      by_cases own : TypeExpr.resolvedName ⟨base, target, args⟩ ∈ params
      · rw [of_parameter marked own]
        refine (((Woven.append ?_ name).append ?_).append closures).append ?_ <;>
          exact .fixed (by decide)
      · rw [of_own marked own]
        refine (((((name.append ?_).append ?_).append ?_)).append closures).append ?_ <;>
          exact .fixed (by decide)

theorem woven_encode {params : List String} {t : TypeExpr} (covered : t.Over P) {value : String}
    (woven : Woven P value) : Woven P ((of params t).encode value) := by
  induction t generalizing value with
  | node base target args ih =>
    have name := Woven.of_name covered.resolvedName
    have closures : Woven P (String.intercalate ", " (encodeClosures (args.map (of params)))) := by
      refine .intercalate (.fixed (by decide)) fun text member => ?_
      rw [encodeClosures_eq_map, List.map_map] at member
      obtain ⟨a, arg, rfl⟩ := List.mem_map.mp member
      exact woven_closure (ih a arg (covered.arg arg) (.fixed (by decide)))
    cases marked : Marker.of? ⟨base, target, args⟩ with
    | some kind =>
      rw [of_marker marked]
      exact woven
    | none =>
      by_cases own : TypeExpr.resolvedName ⟨base, target, args⟩ ∈ params
      · rw [of_parameter marked own]
        refine (((Woven.append ?_ name).append ?_).append woven).append ?_ <;>
          exact .fixed (by decide)
      · rw [of_own marked own]
        refine ((((woven.append ?_).append ?_).append ?_).append closures).append ?_ <;>
          exact .fixed (by decide)

end Plan

/-! ## Statements and functions -/

def DecodeFailure.texts : DecodeFailure → List String
  | .missingField field => [field]
  | .typeMismatch field? expected => field?.toList ++ [expected]

def Source.given : Source → String
  | .entry key => key
  | .expression text => text

def Binding.texts (b : Binding) : List String := b.name :: b.source.given :: b.type.toList

/-- The texts that a statement is given. -/
def Statement.texts : Statement → List String
  | .bind b => b.texts
  | .guardBind b failure => b.texts ++ failure.texts
  | .ifBind b value => value :: b.texts
  | .construct type labels => type :: labels
  | .giveBack value => [value]
  | .store key value => [key, value]
  | .blank | .newDictionary | .keyWarning => []

theorem DecodeFailure.woven_text {failure : DecodeFailure}
    (given : ∀ t ∈ failure.texts, Woven P t) : Woven P failure.text := by
  match failure with
  | .missingField field =>
    have name : Woven P field := given field (by simp [texts])
    refine (Woven.append ?_ name).append ?_ <;> exact .fixed (by decide)
  | .typeMismatch none expected =>
    have type : Woven P expected := given expected (by simp [texts])
    refine Woven.append ?_ type
    exact .fixed (by decide)
  | .typeMismatch (some field) expected =>
    have name : Woven P field := given field (by simp [texts])
    have type : Woven P expected := given expected (by simp [texts])
    refine ((Woven.append ?_ name).append ?_).append type <;> exact .fixed (by decide)

theorem Source.woven_text {source : Source} (given : Woven P source.given) :
    Woven P source.text := by
  cases source with
  | expression text => exact given
  | entry key => refine (Woven.append ?_ given).append ?_ <;> exact .fixed (by decide)

theorem Binding.woven_text {b : Binding} (given : ∀ t ∈ b.texts, Woven P t) : Woven P b.text := by
  obtain ⟨name, type?, source⟩ := b
  have bound : Woven P name := given name (by simp [texts])
  have value : Woven P source.text := Source.woven_text (given source.given (by simp [texts]))
  cases type? with
  | none =>
    refine (bound.append ?_).append value
    exact .fixed (by decide)
  | some type =>
    have typed : Woven P type := given type (by simp [texts])
    refine (((bound.append ?_).append typed).append ?_).append value <;> exact .fixed (by decide)

theorem Statement.woven_lines {s : Statement} (given : ∀ t ∈ s.texts, Woven P t) :
    ∀ line ∈ s.lines, Woven P line := by
  cases s with
  | blank => exact List.forall_mem_singleton.mpr .nil
  | newDictionary | keyWarning => exact List.forall_mem_singleton.mpr (.fixed (by decide))
  | bind b =>
    have binding := Binding.woven_text given
    refine List.forall_mem_singleton.mpr (.append ?_ binding)
    exact .fixed (by decide)
  | guardBind b failure =>
    have binding : Woven P b.text :=
      Binding.woven_text fun t member => given t (List.mem_append_left _ member)
    have message : Woven P failure.text :=
      DecodeFailure.woven_text fun t member => given t (List.mem_append_right _ member)
    simp only [lines, List.forall_mem_cons]
    refine ⟨(Woven.append ?_ binding).append ?_, (Woven.append ?_ message).append ?_, ?_, ?_,
      List.forall_mem_nil _⟩ <;> exact .fixed (by decide)
  | ifBind b value =>
    have result : Woven P value := given value List.mem_cons_self
    have binding : Woven P b.text :=
      Binding.woven_text fun t member => given t (List.mem_cons_of_mem _ member)
    simp only [lines, List.forall_mem_cons]
    refine ⟨(Woven.append ?_ binding).append ?_, Woven.append ?_ result, ?_,
      List.forall_mem_nil _⟩ <;> exact .fixed (by decide)
  | construct type labels =>
    obtain ⟨name, named⟩ := List.forall_mem_cons.mp given
    have arguments : Woven P (String.intercalate ", " (labels.map fun l => l ++ ": " ++ l)) := by
      refine .intercalate (.fixed (by decide)) fun text member => ?_
      obtain ⟨l, label, rfl⟩ := List.mem_map.mp member
      refine ((named l label).append ?_).append (named l label)
      exact .fixed (by decide)
    refine List.forall_mem_singleton.mpr
      ((((Woven.append ?_ name).append ?_).append arguments).append ?_) <;> exact .fixed (by decide)
  | giveBack value =>
    have result : Woven P value := given value List.mem_cons_self
    refine List.forall_mem_singleton.mpr (.append ?_ result)
    exact .fixed (by decide)
  | store key value =>
    have entry : Woven P (Source.entry key).text :=
      Source.woven_text (given key List.mem_cons_self)
    have result : Woven P value := given value (by simp [texts])
    refine List.forall_mem_singleton.mpr ((entry.append ?_).append result)
    exact .fixed (by decide)

theorem woven_indent {width : Nat} (step : width = 2 ∨ width = 4) {line : String}
    (woven : Woven P line) : Woven P (indent width line) := by
  unfold indent
  split_ifs
  · exact .nil
  · refine Woven.append ?_ woven
    rcases step with rfl | rfl <;> exact .fixed (by decide)

namespace Function

/-- All texts that a function is given. -/
structure Given (P : String → Prop) (f : Function) : Prop where
  opening : Woven P f.opening
  parameters : ∀ p ∈ f.parameters, Woven P p
  result : Woven P f.result
  body : ∀ s ∈ f.body, ∀ t ∈ s.texts, Woven P t

theorem woven_signature {f : Function} (given : f.Given P) : Woven P f.signature := by
  have parameters : Woven P (String.intercalate ", " (unlabelled f.parameters)) := by
    refine .intercalate (.fixed (by decide)) ?_
    cases listed : f.parameters with
    | nil => simp [unlabelled]
    | cons p ps =>
      have each := given.parameters
      rw [listed] at each
      obtain ⟨first, others⟩ := List.forall_mem_cons.mp each
      intro text member
      rcases List.mem_cons.mp member with rfl | member
      · exact first
      · obtain ⟨q, other, rfl⟩ := List.mem_map.mp member
        refine Woven.append ?_ (others q other)
        exact .fixed (by decide)
  refine (((given.opening.append ?_).append parameters).append ?_).append given.result <;>
    exact .fixed (by decide)

theorem woven_lines {f : Function} (given : f.Given P) : ∀ line ∈ f.lines, Woven P line := by
  intro line member
  rcases List.mem_cons.mp member with rfl | member
  · refine woven_indent (.inl rfl) ((woven_signature given).append ?_)
    exact .fixed (by decide)
  rcases List.mem_append.mp member with member | member
  · obtain ⟨text, printed, rfl⟩ := List.mem_map.mp member
    obtain ⟨s, present, printed⟩ := List.mem_flatMap.mp printed
    exact woven_indent (.inr rfl) (Statement.woven_lines (given.body s present) text printed)
  · rw [List.mem_singleton.mp member]
    exact woven_indent (.inl rfl) (.fixed (by decide))

end Function

theorem Block.woven_lines {b : Block} (named : P b.typeName)
    (decoder : ∀ d ∈ b.decoder, d.Given P) (encoder : ∀ e ∈ b.encoder, e.Given P) :
    ∀ line ∈ b.lines, Woven P line := by
  have opening : Woven P ("extension " ++ b.typeName ++ " \x7b") := by
    refine (Woven.append ?_ (.of_name named)).append ?_ <;> exact .fixed (by decide)
  have closing : Woven P "\x7d" := .fixed (by decide)
  have decoding (d : Function) (h : b.decoder = some d) := Function.woven_lines (decoder d h)
  have encoding (e : Function) (h : b.encoder = some e) := Function.woven_lines (encoder e h)
  intro line member
  simp only [lines, List.mem_append, List.mem_cons, List.not_mem_nil, or_false] at member
  rcases member with (rfl | member) | rfl | rfl
  · exact opening
  · cases hd : b.decoder with
    | none =>
      cases he : b.encoder with
      | none => simp [hd, he] at member
      | some e =>
        simp only [hd, he] at member
        exact encoding e he line member
    | some d =>
      cases he : b.encoder with
      | none =>
        simp only [hd, he] at member
        exact decoding d hd line member
      | some e =>
        simp only [hd, he, List.mem_append, List.mem_singleton] at member
        rcases member with (member | rfl) | member
        · exact decoding d hd line member
        · exact .nil
        · exact encoding e he line member
  · exact closing
  · exact .nil

/-! ## Codecs -/

namespace EnumDecl

variable {e : EnumDecl}

theorem given_decoder (named : P e.name) (raw : P e.rawType) : e.decoder.Given P where
  opening := by
    refine Woven.append ?_ ?_ <;> exact .fixed (by decide)
  parameters := List.forall_mem_singleton.mpr (.fixed (by decide))
  result := by
    refine (Woven.of_name named).append ?_
    exact .fixed (by decide)
  body := by
    have cast : Woven P ("json as? " ++ e.rawType) := by
      refine Woven.append ?_ (.of_name raw)
      exact .fixed (by decide)
    have value : Woven P (e.name ++ "(rawValue: value)") := by
      refine (Woven.of_name named).append ?_
      exact .fixed (by decide)
    have binding : Woven P "value" := .fixed (by decide)
    have nothing : Woven P "nil" := .fixed (by decide)
    simp only [decoder, Statement.texts, Binding.texts, Source.given, Option.toList_none,
      List.forall_mem_cons]
    exact ⟨⟨value, binding, cast, List.forall_mem_nil _⟩, ⟨nothing, List.forall_mem_nil _⟩,
      List.forall_mem_nil _⟩

theorem given_encoder (raw : P e.rawType) : e.encoder.Given P where
  opening := by
    refine Woven.append ?_ ?_ <;> exact .fixed (by decide)
  parameters := List.forall_mem_nil _
  result := .of_name raw
  body := by
    have value : Woven P "rawValue" := .fixed (by decide)
    simp only [encoder, Statement.texts, List.forall_mem_cons]
    exact ⟨⟨value, List.forall_mem_nil _⟩, List.forall_mem_nil _⟩

end EnumDecl

theorem TypeExpr.inner_mem_args {t inner : TypeExpr} (shaped : t.shape = .ok (.optional inner)) :
    inner ∈ t.args := by
  obtain ⟨base, target, args⟩ := t
  unfold shape at shaped
  split_ifs at shaped with optional array dictionary
  · match args, shaped with
    | [_], rfl => exact List.mem_singleton_self _
  · match args, shaped with
    | [], h | [_], h | _ :: _ :: _, h => cases h
  · match args, shaped with
    | [], h | [_], h | [_, _], h | _ :: _ :: _ :: _, h => cases h
  · match args, shaped with
    | [], h | _ :: _, h => cases h

namespace Field

variable {f : Field} {params : List String}

theorem given_decode (named : P f.name) (covered : f.type.Over P) {statements : List Statement}
    (decoded : f.decode params = .ok statements) :
    ∀ s ∈ statements, ∀ t ∈ s.texts, Woven P t := by
  have name : Woven P f.name := .of_name named
  have type : Woven P f.type.spell := TypeExpr.woven_spell covered
  have raw : Woven P (f.name ++ "_field") := by
    refine name.append ?_
    exact .fixed (by decide)
  have object : Woven P "AnyObject" := .fixed (by decide)
  have object? : Woven P "AnyObject?" := .fixed (by decide)
  have entry {text : String} (woven : Woven P text) :
      ∀ t ∈ Binding.texts ⟨f.name ++ "_field", some text, .entry f.name⟩, Woven P t := by
    simp only [Binding.texts, Source.given, Option.toList_some, List.forall_mem_cons]
    exact ⟨raw, name, woven, List.forall_mem_nil _⟩
  have bound {text : String} (woven : Woven P text) :
      ∀ t ∈ Binding.texts ⟨f.name, some f.type.spell, .expression text⟩, Woven P t := by
    simp only [Binding.texts, Source.given, Option.toList_some, List.forall_mem_cons]
    exact ⟨name, woven, type, List.forall_mem_nil _⟩
  have missing : ∀ t ∈ (DecodeFailure.missingField f.name).texts, Woven P t :=
    List.forall_mem_singleton.mpr name
  have mismatch : ∀ t ∈ (DecodeFailure.typeMismatch (some f.name) f.type.spell).texts, Woven P t :=
    List.forall_mem_cons.mpr ⟨name, List.forall_mem_singleton.mpr type⟩
  obtain ⟨shape, shaped, decoded⟩ := bind_eq_ok.mp decoded
  cases shape with
  | optional inner =>
    cases decoded
    have unwrapped : Woven P (f.name ++ "_field" ++ "!") := by
      refine raw.append ?_
      exact .fixed (by decide)
    have value : Woven P (f.name ++ "_field" ++ " == nil || " ++ (f.name ++ "_field") ++
        "! is NSNull ? nil : " ++ decodeExpression (f.name ++ "_field" ++ "!") inner params) := by
      refine (((raw.append ?_).append raw).append ?_).append
        (Plan.woven_decode (covered.arg (TypeExpr.inner_mem_args shaped)) unwrapped) <;>
        exact .fixed (by decide)
    simp only [List.forall_mem_cons]
    exact ⟨entry object?, bound value, List.forall_mem_nil _, List.forall_mem_nil _⟩
  | plain | array | dictionary | generic =>
    cases decoded
    have required : ∀ t ∈ (Statement.guardBind ⟨f.name ++ "_field", some "AnyObject", .entry f.name⟩
        (.missingField f.name)).texts, Woven P t :=
      List.forall_mem_append.mpr ⟨entry object, missing⟩
    have cast : Woven P (f.name ++ "_field" ++ " as? " ++ f.type.spell) := by
      refine (raw.append ?_).append type
      exact .fixed (by decide)
    have value : Woven P (decodeExpression (f.name ++ "_field") f.type params) :=
      Plan.woven_decode covered raw
    simp only [List.forall_mem_cons]
    refine ⟨required, ?_, List.forall_mem_nil _, List.forall_mem_nil _⟩
    split
    · exact bound raw
    · exact List.forall_mem_append.mpr ⟨bound cast, mismatch⟩
    · exact List.forall_mem_append.mpr ⟨bound value, mismatch⟩

theorem given_store (named : P f.name) (covered : f.type.Over P) (key? : Option String) :
    ∀ s ∈ f.store params key?, ∀ t ∈ s.texts, Woven P t := by
  have name : Woven P f.name := .of_name named
  have value : Woven P (encodeExpression f.name f.type params) := Plan.woven_encode covered name
  have stored : ∀ t ∈ (Statement.store f.name (encodeExpression f.name f.type params)).texts,
      Woven P t := by
    simp only [Statement.texts, List.forall_mem_cons]
    exact ⟨name, value, List.forall_mem_nil _⟩
  cases key? with
  | none => exact List.forall_mem_singleton.mpr stored
  | some key =>
    exact List.forall_mem_cons.mpr ⟨List.forall_mem_nil _, List.forall_mem_singleton.mpr stored⟩

end Field

namespace StructDecl

/-- All names of a struct, those in the types of its fields included. -/
structure Over (P : String → Prop) (s : StructDecl) : Prop where
  name : P s.name
  parameters : ∀ p ∈ s.parameters, P p
  fields : ∀ f ∈ s.fields, P f.name ∧ f.type.Over P

variable {s : StructDecl}

theorem Over.mono {Q : String → Prop} (more : ∀ n, P n → Q n) (covered : s.Over P) : s.Over Q where
  name := more _ covered.name
  parameters p parameter := more p (covered.parameters p parameter)
  fields f field := (covered.fields f field).imp (more _) fun typed => typed.mono more

theorem given_decoder (covered : s.Over P) {d : Function} (decodes : s.decoder = .ok d) :
    d.Given P := by
  obtain ⟨parts, decoded, h⟩ := bind_eq_ok.mp decodes
  cases h
  have each := mapM_eq_ok.mp decoded
  refine ⟨?_, ?_, ?_, ?_⟩
  · refine Woven.append ?_ ?_ <;> exact .fixed (by decide)
  · intro p member
    rcases List.mem_append.mp member with member | member
    · obtain ⟨t, ht, rfl⟩ := List.mem_map.mp member
      have name := Woven.of_name (covered.parameters t ht)
      refine (((Woven.append ?_ name).append ?_).append name).append ?_ <;>
        exact .fixed (by decide)
    · rw [List.mem_singleton.mp member]
      exact .fixed (by decide)
  · refine (Woven.of_name covered.name).append ?_
    exact .fixed (by decide)
  · intro st member
    rcases List.mem_append.mp member with member | member
    · rcases List.mem_append.mp member with member | member
      · have dictionary : ∀ t ∈ ["dict", "json as? [String : AnyObject]", "dictionary"],
            Woven P t := by
          simp only [List.forall_mem_cons]
          refine ⟨?_, ?_, ?_, List.forall_mem_nil _⟩ <;> exact .fixed (by decide)
        simp only [List.mem_cons, List.not_mem_nil, or_false] at member
        rcases member with rfl | rfl
        · exact dictionary
        · exact List.forall_mem_nil _
      · obtain ⟨part, present, inside⟩ := List.mem_flatten.mp member
        obtain ⟨f, field, decoded⟩ := exists_of_forall₂ each.flip present
        obtain ⟨named, typed⟩ := covered.fields f field
        exact Field.given_decode named typed decoded st inside
    · rw [List.mem_singleton.mp member]
      refine List.forall_mem_cons.mpr ⟨.of_name covered.name, fun l label => ?_⟩
      obtain ⟨f, field, rfl⟩ := List.mem_map.mp label
      exact .of_name (covered.fields f field).1

theorem given_encoder (covered : s.Over P) {known : List EnumDecl} {e : Function}
    {ws : List Warning} (encodes : s.encoder known = .ok (e, ws)) : e.Given P := by
  obtain ⟨marks, marked, rfl, -⟩ := encoder_eq_ok.mp encodes
  have each := mapM_eq_ok.mp marked
  have result : Woven P "[String: AnyObject]" := .fixed (by decide)
  refine ⟨?_, ?_, result, ?_⟩
  · refine Woven.append ?_ ?_ <;> exact .fixed (by decide)
  · intro p member
    obtain ⟨t, ht, rfl⟩ := List.mem_map.mp member
    have name := Woven.of_name (covered.parameters t ht)
    refine (((Woven.append ?_ name).append ?_).append name).append ?_ <;> exact .fixed (by decide)
  · have dictionary : ∀ t ∈ (Statement.giveBack "dict").texts, Woven P t :=
      List.forall_mem_singleton.mpr (.fixed (by decide))
    intro st member
    simp only [encoderOf, List.mem_append, List.mem_cons, List.not_mem_nil, or_false] at member
    rcases member with ((rfl | rfl) | member) | rfl | rfl
    · exact List.forall_mem_nil _
    · exact List.forall_mem_nil _
    · obtain ⟨⟨f, key?⟩, present, inside⟩ := List.mem_flatMap.mp member
      obtain ⟨f', field, marked⟩ := exists_of_forall₂ each.flip present
      obtain rfl := (Field.mark_eq_ok.mp marked).1
      obtain ⟨named, typed⟩ := covered.fields f field
      exact Field.given_store named typed key? st inside
    · exact List.forall_mem_nil _
    · exact dictionary

end StructDecl

end SwiftCodec
