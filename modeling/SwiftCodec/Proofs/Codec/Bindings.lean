import Mathlib.Data.List.Nodup
import SwiftCodec.Proofs.Codec.Marks
import SwiftCodec.Proofs.Declaration.Validity
import SwiftCodec.Proofs.Registry.Resolving

/-!
The names that a codec introduces. They are made from names of fields and type arguments, and stand
beside fixed ones; whether they are apart is settled by the declaration alone.
-/
namespace SwiftCodec

/-! ## Introduced names -/

/-- The name in front of the type of a parameter. -/
def parameterName (parameter : String) : String :=
  String.ofList (parameter.toList.takeWhile (· ≠ ':'))

def Statement.introduced : Statement → List String
  | .bind b | .guardBind b _ | .ifBind b _ => [b.name]
  | .newDictionary => ["dict"]
  | _ => []

/-- Parameters, then locals in the order of the statements. -/
def Function.introduced (f : Function) : List String :=
  f.parameters.map parameterName ++ f.body.flatMap Statement.introduced

theorem parameterName_of_colon {parameter name : String} (plain : ':' ∉ name.toList)
    (type : List Char) (split : parameter.toList = name.toList ++ ':' :: type) :
    parameterName parameter = name := by
  have before : ∀ c ∈ name.toList, decide (c ≠ ':') = true := by
    intro c member
    rw [decide_eq_true_eq]
    rintro rfl
    exact plain member
  rw [parameterName, split, List.takeWhile_append_of_pos before]
  simp

namespace Name

theorem isTail_of_isIdentifier {name : String} (identifier : isIdentifier name) :
    ∀ c ∈ name.toList, isTail c := by
  unfold isIdentifier at identifier
  cases chars : name.toList with
  | nil => simp
  | cons first rest =>
    rw [chars, isIdentifierList, Bool.and_eq_true] at identifier
    obtain ⟨head, tail⟩ := identifier
    intro c member
    rcases List.mem_cons.mp member with rfl | member
    · rw [isTail, head, Bool.true_or]
    · exact List.all_eq_true.mp tail c member

theorem colon_not_mem {name : String} (identifier : isIdentifier name) : ':' ∉ name.toList := by
  intro member
  have tail := isTail_of_isIdentifier identifier ':' member
  exact absurd tail (by decide)

end Name

namespace Field

/-- Both locals of a field, whatever its type is. -/
theorem introduced_decode {f : Field} {params : List String} {statements : List Statement}
    (decoded : f.decode params = .ok statements) :
    statements.flatMap Statement.introduced = [f.name ++ "_field", f.name] := by
  obtain ⟨shape, shaped, decoded⟩ := bind_eq_ok.mp decoded
  cases shape with
  | optional inner =>
    cases decoded
    rfl
  | plain | array | dictionary | generic =>
    cases decoded
    split <;> rfl

theorem introduced_store (f : Field) (params : List String) (key? : Option String) :
    (f.store params key?).flatMap Statement.introduced = [] := by
  cases key? <;> rfl

end Field

namespace StructDecl

variable {s : StructDecl}

/-- The locals of fields. -/
def locals (names : List String) : List String := names.flatMap fun n => [n ++ "_field", n]

def fieldNames (s : StructDecl) : List String := s.fields.map (·.name)

def decoderNames (s : StructDecl) : List String :=
  s.parameters.map ("decode" ++ ·) ++ (["json", "dict"] ++ locals s.fieldNames)

def encoderNames (s : StructDecl) : List String := s.parameters.map ("encode" ++ ·) ++ ["dict"]

/-- What each field adds to the statements of a decoder, read off the fields. -/
theorem flatMap_decoded {β : Type} {read : Statement → List β} {own : Field → List β}
    {params : List String}
    (step : ∀ f statements, f.decode params = .ok statements → statements.flatMap read = own f)
    {fields : List Field} {parts : List (List Statement)}
    (decoded : List.Forall₂ (fun f part => f.decode params = .ok part) fields parts) :
    parts.flatten.flatMap read = fields.flatMap own := by
  induction decoded with
  | nil => rfl
  | @cons f part fields parts first _ ih =>
    rw [List.flatten_cons, List.flatMap_append, List.flatMap_cons, step f part first, ih]

theorem introduced_fields {params : List String} {fields : List Field}
    {parts : List (List Statement)}
    (decoded : List.Forall₂ (fun f part => f.decode params = .ok part) fields parts) :
    parts.flatten.flatMap Statement.introduced = locals (fields.map (·.name)) := by
  rw [flatMap_decoded (fun _ _ => Field.introduced_decode) decoded, locals, List.flatMap_map]

theorem introduced_decoder {d : Function} (plain : ∀ t ∈ s.parameters, ':' ∉ t.toList)
    (decodes : s.decoder = .ok d) : d.introduced = s.decoderNames := by
  obtain ⟨parts, decoded, h⟩ := bind_eq_ok.mp decodes
  cases h
  have parameters : s.decodeParameters.map parameterName =
      s.parameters.map ("decode" ++ ·) ++ ["json"] := by
    have input : parameterName "json: AnyObject" = "json" := by decide
    rw [decodeParameters, List.map_append, List.map_map, List.map_singleton, input,
      List.append_left_inj]
    refine List.map_congr_left fun t member => ?_
    apply parameterName_of_colon _ (" AnyObject -> ".toList ++ t.toList ++ ['?'])
    · simp
    · simpa using plain t member
  have fields := introduced_fields (mapM_eq_ok.mp decoded)
  simp only [Function.introduced, parameters, List.flatMap_append, fields]
  simp [decoderNames, fieldNames, Statement.introduced]

theorem introduced_encoder {known : List EnumDecl} {e : Function} {ws : List Warning}
    (plain : ∀ t ∈ s.parameters, ':' ∉ t.toList) (encodes : s.encoder known = .ok (e, ws)) :
    e.introduced = s.encoderNames := by
  obtain ⟨marks, -, rfl, -⟩ := encoder_eq_ok.mp encodes
  have parameters : s.encodeParameters.map parameterName = s.parameters.map ("encode" ++ ·) := by
    rw [encodeParameters, List.map_map]
    refine List.map_congr_left fun t member => ?_
    apply parameterName_of_colon _ (' ' :: t.toList ++ " -> AnyObject".toList)
    · simp
    · simpa using plain t member
  have stores : (s.stores marks).flatMap Statement.introduced = [] := by
    rw [stores, List.flatMap_assoc, List.flatMap_eq_nil_iff]
    intro mark _
    exact mark.1.introduced_store s.parameters mark.2
  simp only [Function.introduced, encoderOf, parameters, List.flatMap_append, stores]
  simp [encoderNames, Statement.introduced]

/-! ## Names that are apart -/

theorem field_ne_self (n : String) : n ≠ n ++ "_field" := by
  intro same
  simpa using congrArg String.length same

theorem mem_locals {names : List String} {x : String} :
    x ∈ locals names ↔ ∃ n ∈ names, x = n ++ "_field" ∨ x = n := by
  simp [locals]

theorem locals_nodup (names : List String) :
    (locals names).Nodup ↔ names.Nodup ∧ ∀ n ∈ names, ∀ m ∈ names, m ≠ n ++ "_field" := by
  rw [locals, List.nodup_flatMap]
  constructor
  · rintro ⟨-, apart⟩
    constructor
    · refine apart.imp fun {n m} disjoint same => ?_
      exact disjoint (a := n) (by simp) (by simp [same])
    · refine List.Pairwise.forall_of_forall_of_flip (fun n _ => field_ne_self n) ?_ ?_
      · refine apart.imp fun {n m} disjoint same => ?_
        exact disjoint (a := m) (by simp [same]) (by simp)
      · refine apart.imp fun {n m} disjoint same => ?_
        exact disjoint (a := n) (by simp) (by simp [same])
  · rintro ⟨distinct, apart⟩
    constructor
    · intro n _
      simp
    · refine distinct.imp_of_mem fun {n m} hn hm other x first second => ?_
      simp only [List.mem_cons, List.not_mem_nil, or_false] at first second
      rcases first with rfl | rfl <;> rcases second with same | same
      · exact other ((String.append_left_inj "_field").mp same)
      · exact apart n hn m hm same.symm
      · exact apart m hm x hn same
      · exact other same

theorem function_inj {word t u : String} (same : word ++ t = word ++ u) : t = u :=
  (String.append_right_inj word).mp same

/-- The name of a function is none that is shorter than the word it begins with. -/
theorem function_ne {n : String} (word t : String) (shorter : n.length < word.length) :
    word ++ t ≠ n := by
  rintro rfl
  rw [String.length_append] at shorter
  omega

theorem fixed_apart (names : List String) :
    (∀ x ∈ ["json", "dict"], ∀ y ∈ locals names, x ≠ y) ↔
      ∀ n ∈ names, n ≠ "json" ∧ n ≠ "dict" := by
  constructor
  · intro apart n hn
    have here : n ∈ locals names := mem_locals.mpr ⟨n, hn, .inr rfl⟩
    exact ⟨(apart "json" (by simp) n here).symm, (apart "dict" (by simp) n here).symm⟩
  · intro fixed x hx y hy
    obtain ⟨n, hn, made⟩ := mem_locals.mp hy
    rcases made with rfl | rfl
    · -- The suffix alone is longer than either.
      intro same
      have lengths := congrArg String.length same
      have short : x.length = 4 := by
        simp only [List.mem_cons, List.not_mem_nil, or_false] at hx
        rcases hx with rfl | rfl <;> decide
      have suffix : "_field".length = 6 := by decide
      rw [String.length_append] at lengths
      omega
    · simp only [List.mem_cons, List.not_mem_nil, or_false] at hx
      rcases hx with rfl | rfl
      · exact (fixed y hn).1.symm
      · exact (fixed y hn).2.symm

theorem functions_apart (params names : List String) :
    (∀ x ∈ params.map ("decode" ++ ·), ∀ y ∈ ["json", "dict"] ++ locals names, x ≠ y) ↔
      ∀ n ∈ names, ∀ t ∈ params, n ≠ "decode" ++ t ∧ n ++ "_field" ≠ "decode" ++ t := by
  constructor
  · intro apart n hn t ht
    have other {y : String} (hy : y ∈ locals names) : y ≠ "decode" ++ t :=
      (apart _ (List.mem_map_of_mem ht) y (List.mem_append_right _ hy)).symm
    exact ⟨other (mem_locals.mpr ⟨n, hn, .inr rfl⟩), other (mem_locals.mpr ⟨n, hn, .inl rfl⟩)⟩
  · intro functions x hx y hy
    obtain ⟨t, ht, rfl⟩ := List.mem_map.mp hx
    rcases List.mem_append.mp hy with hy | hy
    · simp only [List.mem_cons, List.not_mem_nil, or_false] at hy
      rcases hy with rfl | rfl <;> exact function_ne "decode" t (by decide)
    · obtain ⟨n, hn, made⟩ := mem_locals.mp hy
      rcases made with rfl | rfl
      · exact (functions n hn t ht).2.symm
      · exact (functions y hn t ht).1.symm

/-- The names of a struct do not get in each other's way: those of its type arguments are different,
those of its fields are, and none of these is one that decoding makes up. -/
structure Unambiguous (s : StructDecl) : Prop where
  parameters : s.parameters.Nodup
  fields : s.fieldNames.Nodup
  raw : ∀ n ∈ s.fieldNames, ∀ m ∈ s.fieldNames, m ≠ n ++ "_field"
  fixed : ∀ n ∈ s.fieldNames, n ≠ "json" ∧ n ≠ "dict"
  functions : ∀ n ∈ s.fieldNames, ∀ t ∈ s.parameters,
    n ≠ "decode" ++ t ∧ n ++ "_field" ≠ "decode" ++ t

theorem decoderNames_nodup : s.decoderNames.Nodup ↔ s.Unambiguous := by
  rw [decoderNames, List.nodup_append, List.nodup_append, fixed_apart, functions_apart,
    locals_nodup, List.nodup_map_iff fun _ _ => function_inj]
  constructor
  · rintro ⟨parameters, ⟨-, ⟨fields, raw⟩, fixed⟩, functions⟩
    exact ⟨parameters, fields, raw, fixed, functions⟩
  · intro h
    exact ⟨h.parameters, ⟨by decide, ⟨h.fields, h.raw⟩, h.fixed⟩, h.functions⟩

theorem encoderNames_nodup : s.encoderNames.Nodup ↔ s.parameters.Nodup := by
  rw [encoderNames, List.nodup_append, List.nodup_map_iff fun _ _ => function_inj]
  constructor
  · exact fun h => h.1
  · intro distinct
    refine ⟨distinct, by simp, fun x hx y hy => ?_⟩
    obtain ⟨t, ht, rfl⟩ := List.mem_map.mp hx
    obtain rfl := List.mem_singleton.mp hy
    exact function_ne "encode" t (by decide)

theorem not_mem_encoderNames {n : String} :
    n ∉ s.encoderNames ↔ n ≠ "dict" ∧ ∀ t ∈ s.parameters, n ≠ "encode" ++ t := by
  rw [encoderNames, List.mem_append, List.mem_map, List.mem_singleton]
  constructor
  · intro absent
    exact ⟨fun h => absent (.inr h), fun t ht h => absent (.inl ⟨t, ht, h.symm⟩)⟩
  · rintro ⟨other, functions⟩ (⟨t, ht, h⟩ | h)
    · exact functions t ht h.symm
    · exact other h

end StructDecl

theorem Registry.Resolves.fieldNames {r : Registry} {s s' : StructDecl} (h : r.Resolves s s') :
    s'.fieldNames = s.fieldNames := by
  have names := List.forall₂_map_left_iff.mpr
    (List.forall₂_map_right_iff.mpr (h.fields.imp fun f f' hf => hf.1.symm))
  exact (List.forall₂_eq_eq_eq ▸ names : s.fieldNames = s'.fieldNames).symm

/-- What the codecs of a struct in a valid file introduce, and when no name comes twice or hides a
field. -/
theorem codec_bindings {file : SourceFile} {r : Registry} {s s' : StructDecl}
    (valid : file.validate = .ok ()) (declared : s ∈ file.flatten.structs)
    (resolved : r.resolveStruct s = .ok s') :
    (∀ d, s'.decoder = .ok d →
      d.introduced = s.decoderNames ∧ (d.introduced.Nodup ↔ s.Unambiguous)) ∧
    ∀ known e ws, s'.encoder known = .ok (e, ws) →
      e.introduced = s.encoderNames ∧ (e.introduced.Nodup ↔ s.parameters.Nodup) ∧
      ((∀ n ∈ s.fieldNames, n ∉ e.introduced) ↔
        ∀ n ∈ s.fieldNames, n ≠ "dict" ∧ ∀ t ∈ s.parameters, n ≠ "encode" ++ t) := by
  have resolves := Registry.resolves_of_resolveStruct resolved
  have checked := (Inventory.validate_eq_ok.mp valid).2.1 s declared
  have plain : ∀ t ∈ s'.parameters, ':' ∉ t.toList := by
    intro t ht
    rw [resolves.parameters] at ht
    exact Name.colon_not_mem ((Inventory.validateStruct_eq_ok.mp checked).1 t ht)
  constructor
  · intro d decodes
    have introduced : d.introduced = s.decoderNames := by
      rw [StructDecl.introduced_decoder plain decodes, StructDecl.decoderNames,
        resolves.parameters, resolves.fieldNames, StructDecl.decoderNames]
    rw [introduced]
    exact ⟨rfl, StructDecl.decoderNames_nodup⟩
  · intro known e ws encodes
    have introduced : e.introduced = s.encoderNames := by
      rw [StructDecl.introduced_encoder plain encodes, StructDecl.encoderNames,
        resolves.parameters, StructDecl.encoderNames]
    rw [introduced]
    refine ⟨rfl, StructDecl.encoderNames_nodup, ?_⟩
    simp only [StructDecl.not_mem_encoderNames]

def boxed (field : String) : StructDecl := ⟨"Box", ["T"], [⟨field, .named "T"⟩], []⟩

def boxFile (field : String) : SourceFile := ⟨"Box.swift", [.struct (boxed field)]⟩

theorem codec_bindings_box :
    (boxFile "value").validate = .ok () ∧
    (Registry.scan [boxFile "value"]).resolveStruct (boxed "value") = .ok (boxed "value") ∧
    ∃ d e ws, (boxed "value").decoder = .ok d ∧ (boxed "value").encoder [] = .ok (e, ws) ∧
      d.introduced.Nodup ∧ e.introduced.Nodup ∧ "value" ∉ e.introduced := by
  have valid : (boxFile "value").validate = .ok () := by decide
  have resolved : (Registry.scan [boxFile "value"]).resolveStruct (boxed "value") =
      .ok (boxed "value") := by cbv
  obtain ⟨decoding, encoding⟩ := codec_bindings valid (List.mem_singleton_self _) resolved
  obtain ⟨d, decodes⟩ : ∃ d, (boxed "value").decoder = .ok d := ⟨_, rfl⟩
  obtain ⟨e, ws, encodes⟩ : ∃ e ws, (boxed "value").encoder [] = .ok (e, ws) := ⟨_, _, rfl⟩
  obtain ⟨-, distinct⟩ := decoding d decodes
  obtain ⟨-, distinct', apart⟩ := encoding [] e ws encodes
  have unambiguous : (boxed "value").Unambiguous := by
    rw [← StructDecl.decoderNames_nodup]
    decide
  exact ⟨valid, resolved, d, e, ws, decodes, encodes, distinct.mpr unambiguous,
    distinct'.mpr (by decide), apart.mpr (by decide) "value" (by decide)⟩

/-- The local dictionary and a field of its name. -/
theorem dict_bound_twice :
    (boxFile "dict").validate = .ok () ∧
    (Registry.scan [boxFile "dict"]).resolveStruct (boxed "dict") = .ok (boxed "dict") ∧
    ∃ d e ws, (boxed "dict").decoder = .ok d ∧ (boxed "dict").encoder [] = .ok (e, ws) ∧
      ¬ d.introduced.Nodup ∧ "dict" ∈ e.introduced := by
  refine ⟨by decide, by cbv, _, _, _, rfl, rfl, ?_, ?_⟩ <;> decide

end SwiftCodec
