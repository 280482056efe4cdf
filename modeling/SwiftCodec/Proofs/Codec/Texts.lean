import SwiftCodec.Proofs.Output.Weaving
import SwiftCodec.Proofs.Text.Call

/-!
The texts that a codec puts into its lines. They are put together from names, fixed pieces and
closures, so that they have every property that texts have if their parts do.
-/
namespace SwiftCodec

/-- Neither a brace nor a quote. -/
def Unpaired (c : Char) : Prop := c ≠ '\x7b' ∧ c ≠ '\x7d' ∧ c ≠ '"'

instance (c : Char) : Decidable (Unpaired c) := inferInstanceAs (Decidable (_ ∧ _))

/-- A property that plain texts have, and texts that are put together from others with it. -/
structure Composable (T : String → Prop) : Prop where
  plain : ∀ {s}, Within Unpaired s → T s
  append : ∀ {s t}, T s → T t → T (s ++ t)
  closure : ∀ {s}, T s → T (Plan.closure s)

namespace Composable

variable {T : String → Prop} (all : Composable T)

include all

theorem intercalate {sep : String} (between : Within Unpaired sep) {texts : List String}
    (each : ∀ t ∈ texts, T t) : T (sep.intercalate texts) := by
  induction texts with
  | nil =>
    rw [String.intercalate_nil]
    exact all.plain (by decide)
  | cons first rest ih =>
    obtain ⟨head, tail⟩ := List.forall_mem_cons.mp each
    cases rest with
    | nil => rwa [String.intercalate_singleton]
    | cons second rest =>
      rw [String.intercalate_cons_cons]
      exact all.append (all.append head (all.plain between)) (ih tail)

theorem between {front back s : String} (before : Within Unpaired front) (inside : T s)
    (behind : Within Unpaired back) : T (front ++ s ++ back) :=
  all.append (all.append (all.plain before) inside) (all.plain behind)

/-! ## Types and expressions -/

theorem spellWith {base : String} (named : T base) {args : List String} (each : ∀ a ∈ args, T a) :
    T (TypeExpr.spellWith base args) := by
  have applied {inner : String} (inside : T inner) : T (base ++ "<" ++ inner ++ ">") :=
    all.append (all.append (all.append named (all.plain (by decide))) inside)
      (all.plain (by decide))
  match args with
  | [] => exact named
  | [a] =>
    have inner := each a (by simp)
    simp only [TypeExpr.spellWith]
    split_ifs
    · exact all.append inner (all.plain (by decide))
    · exact all.between (by decide) inner (by decide)
    · exact applied inner
  | [a, b] =>
    have first := each a (by simp)
    have second := each b (by simp)
    simp only [TypeExpr.spellWith]
    split_ifs
    · exact all.append (all.append (all.between (by decide) first (by decide)) second)
        (all.plain (by decide))
    · have pair : T (a ++ ", " ++ b) :=
        all.append (all.append first (all.plain (by decide))) second
      simpa only [String.append_assoc] using applied pair
  | a :: b :: c :: rest => exact applied (all.intercalate (by decide) each)

theorem spell {t : TypeExpr} (covered : t.Over T) : T t.spell := by
  induction t with
  | node base target args ih =>
    rw [TypeExpr.spell, TypeExpr.spellAll_eq_map]
    refine all.spellWith covered.here fun text member => ?_
    obtain ⟨a, arg, rfl⟩ := List.mem_map.mp member
    exact ih a arg (covered.arg arg)

theorem decode {params : List String} {t : TypeExpr} (covered : t.Over T) {input : String}
    (given : T input) : T ((Plan.of params t).decode input) := by
  induction t generalizing input with
  | node base target args ih =>
    have name := covered.resolvedName
    have closures : T (String.intercalate ", "
        (Plan.decodeClosures (args.map (Plan.of params)) ++ [input])) := by
      refine all.intercalate (by decide) fun text member => ?_
      rw [Plan.decodeClosures_eq_map, List.map_map] at member
      rcases List.mem_append.mp member with closed | last
      · obtain ⟨a, arg, rfl⟩ := List.mem_map.mp closed
        exact all.closure (ih a arg (covered.arg arg) (all.plain (by decide)))
      · rwa [List.mem_singleton.mp last]
    cases marked : Marker.of? ⟨base, target, args⟩ with
    | some kind =>
      rw [Plan.of_marker marked]
      cases kind <;> exact all.append (all.append given (all.plain (by decide))) name
    | none =>
      by_cases own : TypeExpr.resolvedName ⟨base, target, args⟩ ∈ params
      · rw [Plan.of_parameter marked own]
        exact all.append (all.append (all.between (by decide) name (by decide)) closures)
          (all.plain (by decide))
      · rw [Plan.of_own marked own]
        have callee := all.append (all.append (all.append name (all.plain (s := ".") (by decide)))
          (all.plain (s := decodeName) (by decide))) (all.plain (s := "(") (by decide))
        exact all.append (all.append callee closures) (all.plain (by decide))

theorem encode {params : List String} {t : TypeExpr} (covered : t.Over T) {value : String}
    (given : T value) : T ((Plan.of params t).encode value) := by
  induction t generalizing value with
  | node base target args ih =>
    have name := covered.resolvedName
    have closures : T (String.intercalate ", "
        (Plan.encodeClosures (args.map (Plan.of params)))) := by
      refine all.intercalate (by decide) fun text member => ?_
      rw [Plan.encodeClosures_eq_map, List.map_map] at member
      obtain ⟨a, arg, rfl⟩ := List.mem_map.mp member
      exact all.closure (ih a arg (covered.arg arg) (all.plain (by decide)))
    cases marked : Marker.of? ⟨base, target, args⟩ with
    | some kind =>
      rw [Plan.of_marker marked]
      exact given
    | none =>
      by_cases own : TypeExpr.resolvedName ⟨base, target, args⟩ ∈ params
      · rw [Plan.of_parameter marked own]
        exact all.append (all.append (all.between (by decide) name (by decide)) given)
          (all.plain (by decide))
      · rw [Plan.of_own marked own]
        have callee := all.append (all.append (all.append given (all.plain (s := ".") (by decide)))
          (all.plain (s := encodeName) (by decide))) (all.plain (s := "(") (by decide))
        exact all.append (all.append callee closures) (all.plain (by decide))

/-! ## Fields -/

theorem texts_decode {f : Field} {params : List String} {statements : List Statement}
    (named : T f.name) (covered : f.type.Over T) (decoded : f.decode params = .ok statements) :
    ∀ s ∈ statements, ∀ t ∈ s.texts, T t := by
  have type : T f.type.spell := all.spell covered
  have raw : T (f.name ++ "_field") := all.append named (all.plain (by decide))
  have entry {text : String} (plain : Within Unpaired text) :
      ∀ t ∈ Binding.texts ⟨f.name ++ "_field", some text, .entry f.name⟩, T t := by
    simp only [Binding.texts, Source.given, Option.toList_some, List.forall_mem_cons]
    exact ⟨raw, named, all.plain plain, List.forall_mem_nil _⟩
  have bound {text : String} (value : T text) :
      ∀ t ∈ Binding.texts ⟨f.name, some f.type.spell, .expression text⟩, T t := by
    simp only [Binding.texts, Source.given, Option.toList_some, List.forall_mem_cons]
    exact ⟨named, value, type, List.forall_mem_nil _⟩
  have mismatch : ∀ t ∈ (DecodeFailure.typeMismatch (some f.name) f.type.spell).texts, T t :=
    List.forall_mem_cons.mpr ⟨named, List.forall_mem_singleton.mpr type⟩
  obtain ⟨shape, shaped, decoded⟩ := bind_eq_ok.mp decoded
  cases shape with
  | optional inner =>
    cases decoded
    have inside : T (decodeExpression (f.name ++ "_field" ++ "!") inner params) :=
      all.decode (covered.arg (TypeExpr.inner_mem_args shaped))
        (all.append raw (all.plain (by decide)))
    have condition : T (f.name ++ "_field" ++ " == nil || " ++ (f.name ++ "_field") ++
        "! is NSNull ? nil : ") :=
      all.append (all.append (all.append raw (all.plain (by decide))) raw) (all.plain (by decide))
    simp only [List.forall_mem_cons]
    exact ⟨entry (by decide), bound (all.append condition inside), List.forall_mem_nil _,
      List.forall_mem_nil _⟩
  | plain | array | dictionary | generic =>
    cases decoded
    have required : ∀ t ∈ (Statement.guardBind ⟨f.name ++ "_field", some "AnyObject", .entry f.name⟩
        (.missingField f.name)).texts, T t :=
      List.forall_mem_append.mpr ⟨entry (by decide), List.forall_mem_singleton.mpr named⟩
    have cast : T (f.name ++ "_field" ++ " as? " ++ f.type.spell) :=
      all.append (all.append raw (all.plain (by decide))) type
    have value : T (decodeExpression (f.name ++ "_field") f.type params) := all.decode covered raw
    simp only [List.forall_mem_cons]
    refine ⟨required, ?_, List.forall_mem_nil _, List.forall_mem_nil _⟩
    split
    · exact bound raw
    · exact List.forall_mem_append.mpr ⟨bound cast, mismatch⟩
    · exact List.forall_mem_append.mpr ⟨bound value, mismatch⟩

theorem texts_store {f : Field} {params : List String} (named : T f.name)
    (covered : f.type.Over T) (key? : Option String) :
    ∀ s ∈ f.store params key?, ∀ t ∈ s.texts, T t := by
  have stored : ∀ t ∈ (Statement.store f.name (encodeExpression f.name f.type params)).texts,
      T t := by
    simp only [Statement.texts, List.forall_mem_cons]
    exact ⟨named, all.encode covered named, List.forall_mem_nil _⟩
  cases key? with
  | none => exact List.forall_mem_singleton.mpr stored
  | some key =>
    exact List.forall_mem_cons.mpr ⟨List.forall_mem_nil _, List.forall_mem_singleton.mpr stored⟩

/-! ## Functions -/

theorem signature {f : Function} (opening : T f.opening) (parameters : ∀ p ∈ f.parameters, T p)
    (result : T f.result) : T f.signature := by
  have parts : T (String.intercalate ", " (Function.unlabelled f.parameters)) := by
    refine all.intercalate (by decide) ?_
    cases listed : f.parameters with
    | nil => exact List.forall_mem_nil _
    | cons p ps =>
      rw [listed] at parameters
      obtain ⟨first, others⟩ := List.forall_mem_cons.mp parameters
      refine List.forall_mem_cons.mpr ⟨first, fun text member => ?_⟩
      obtain ⟨q, other, rfl⟩ := List.mem_map.mp member
      exact all.append (all.plain (by decide)) (others q other)
  exact all.append (all.append (all.append (all.append opening (all.plain (by decide))) parts)
    (all.plain (by decide))) result

variable {s : StructDecl}

theorem decoder {d : Function} (covered : s.Over T) (decodes : s.decoder = .ok d) :
    T d.signature ∧ ∀ st ∈ d.body, ∀ t ∈ st.texts, T t := by
  obtain ⟨parts, decoded, h⟩ := bind_eq_ok.mp decodes
  cases h
  constructor
  · refine all.signature (all.plain (show Within Unpaired ("static func " ++ decodeName) by decide))
      (fun p member => ?_) (all.append covered.name (all.plain (by decide)))
    rcases List.mem_append.mp member with member | member
    · obtain ⟨t, ht, rfl⟩ := List.mem_map.mp member
      have name := covered.parameters t ht
      exact all.append (all.append (all.between (by decide) name (by decide)) name)
        (all.plain (by decide))
    · rw [List.mem_singleton.mp member]
      exact all.plain (by decide)
  · intro st member
    simp only [List.mem_append, List.mem_cons, List.not_mem_nil, or_false] at member
    rcases member with ((rfl | rfl) | member) | rfl
    · have fixed : ∀ t ∈ ["dict", "json as? [String : AnyObject]", "dictionary"],
          Within Unpaired t := by decide
      exact fun t given => all.plain (fixed t given)
    · exact List.forall_mem_nil _
    · obtain ⟨part, present, inside⟩ := List.mem_flatten.mp member
      obtain ⟨f, field, decoded⟩ := exists_of_forall₂ (mapM_eq_ok.mp decoded).flip present
      obtain ⟨named, typed⟩ := covered.fields f field
      exact all.texts_decode named typed decoded st inside
    · refine List.forall_mem_cons.mpr ⟨covered.name, fun l label => ?_⟩
      obtain ⟨f, field, rfl⟩ := List.mem_map.mp label
      exact (covered.fields f field).1

theorem encoder {e : Function} {known : List EnumDecl} {ws : List Warning} (covered : s.Over T)
    (encodes : s.encoder known = .ok (e, ws)) :
    T e.signature ∧ ∀ st ∈ e.body, ∀ t ∈ st.texts, T t := by
  obtain ⟨marks, marked, rfl, -⟩ := StructDecl.encoder_eq_ok.mp encodes
  constructor
  · refine all.signature (all.plain (show Within Unpaired ("func " ++ encodeName) by decide))
      (fun p member => ?_) (all.plain (show Within Unpaired "[String: AnyObject]" by decide))
    obtain ⟨t, ht, rfl⟩ := List.mem_map.mp member
    have name := covered.parameters t ht
    exact all.append (all.append (all.between (by decide) name (by decide)) name)
      (all.plain (by decide))
  · intro st member
    simp only [StructDecl.encoderOf, List.mem_append, List.mem_cons, List.not_mem_nil,
      or_false] at member
    rcases member with ((rfl | rfl) | member) | rfl | rfl
    · exact List.forall_mem_nil _
    · exact List.forall_mem_nil _
    · obtain ⟨⟨f, key?⟩, present, inside⟩ := List.mem_flatMap.mp member
      obtain ⟨f', field, marked⟩ := exists_of_forall₂ (mapM_eq_ok.mp marked).flip present
      obtain rfl := (Field.mark_eq_ok.mp marked).1
      obtain ⟨named, typed⟩ := covered.fields f field
      exact all.texts_store named typed key? st inside
    · exact List.forall_mem_nil _
    · exact List.forall_mem_singleton.mpr (all.plain (by decide))

variable {e : EnumDecl}

theorem enumDecoder (named : T e.name) (raw : T e.rawType) :
    T e.decoder.signature ∧ ∀ st ∈ e.decoder.body, ∀ t ∈ st.texts, T t := by
  constructor
  · exact all.signature (all.plain (show Within Unpaired ("static func " ++ decodeName) by decide))
      (List.forall_mem_singleton.mpr (all.plain (by decide)))
      (all.append named (all.plain (by decide)))
  · simp only [EnumDecl.decoder, Statement.texts, Binding.texts, Source.given, Option.toList_none,
      List.forall_mem_cons]
    refine ⟨⟨all.append named (all.plain (by decide)), all.plain (by decide),
      all.append (all.plain (by decide)) raw, List.forall_mem_nil _⟩,
      ⟨all.plain (by decide), List.forall_mem_nil _⟩, List.forall_mem_nil _⟩

theorem enumEncoder (raw : T e.rawType) :
    T e.encoder.signature ∧ ∀ st ∈ e.encoder.body, ∀ t ∈ st.texts, T t := by
  constructor
  · exact all.signature (all.plain (show Within Unpaired ("func " ++ encodeName) by decide))
      (List.forall_mem_nil _) raw
  · simp only [EnumDecl.encoder, Statement.texts, List.forall_mem_cons]
    exact ⟨⟨all.plain (by decide), List.forall_mem_nil _⟩, List.forall_mem_nil _⟩

end Composable

end SwiftCodec
