import SwiftCodec.Codec.Struct
import SwiftCodec.Declaration.Validity
import SwiftCodec.Proofs.Defect.Traversal

/-!
The keys of dictionary fields. Of the type of a field the encoder judges one name, that of the key
if the field is a dictionary; a name that is no string either stops it or earns a warning. So the
keys of a dictionary field without a warning are strings. This is said of the field itself and not
of dictionaries further inside its type.
-/
namespace SwiftCodec

namespace TypeExpr

/-- Values of this type encode to strings: it is `String`, or a known enum backed by it. -/
def StringKey (known : List EnumDecl) (key : TypeExpr) : Prop :=
  key.resolvedName = "String" ∨
    ∃ e ∈ known, e.name = key.resolvedName ∧ e.rawType = "String"

theorem shape_dictionary {t : TypeExpr} {s : Shape} (dictionary : t.base = "Dictionary")
    (shaped : t.shape = .ok s) :
    ∃ key value, t.args = [key, value] ∧ s = .dictionary key value := by
  obtain ⟨base, target, args⟩ := t
  cases dictionary
  match args with
  | [] => cases shaped
  | [_] => cases shaped
  | [key, value] => cases shaped; exact ⟨key, value, rfl, rfl⟩
  | _ :: _ :: _ :: _ => cases shaped

mutual
/-- The nodes of a type whose own encoder an encoding expression calls: it goes no further than to
markers and to type arguments of the struct. -/
def encodedNodes (params : List String) : TypeExpr → List TypeExpr
  | ⟨base, target, args⟩ =>
    if (Marker.of? ⟨base, target, args⟩).isSome ||
        params.contains (resolvedName ⟨base, target, args⟩) then []
    else ⟨base, target, args⟩ :: encodedNodesAll params args
termination_by structural t => t
def encodedNodesAll (params : List String) : List TypeExpr → List TypeExpr
  | [] => []
  | t :: ts => encodedNodes params t ++ encodedNodesAll params ts
termination_by structural ts => ts
end

end TypeExpr

/-- The name under which the keys of a dictionary are judged. -/
def Shape.keyName? : Shape → Option String
  | .dictionary key _ => some key.resolvedName
  | _ => none

namespace Field

/-- What is said about a field from the name of its key. -/
def judge (field : String) (known : List EnumDecl) : Option String → Except Defect (Option String)
  | none => .ok none
  | some key =>
    if key = "String" then .ok none
    else
      match known.find? (·.name = key) with
      | none => .error (.unsupportedKey field key)
      | some e => .ok (if e.rawType = "String" then none else some key)

theorem nonStringKey?_eq (f : Field) (known : List EnumDecl) :
    f.nonStringKey? known = f.type.shape.map Shape.keyName? >>= judge f.name known := by
  unfold nonStringKey?
  cases f.type.shape with
  | error => rfl
  | ok s => cases s <;> rfl

theorem string_of_judge {field key : String} {known : List EnumDecl}
    (judged : judge field known (some key) = .ok none) :
    key = "String" ∨ ∃ e ∈ known, e.name = key ∧ e.rawType = "String" := by
  unfold judge at judged
  dsimp only at judged
  split_ifs at judged with string
  · exact .inl string
  · right
    split at judged
    · cases judged
    · rename_i e found
      have member := List.mem_of_find?_eq_some found
      have named : e.name = key := by simpa using List.find?_some found
      by_cases raw : e.rawType = "String"
      · exact ⟨e, member, named, raw⟩
      · rw [if_neg raw] at judged
        cases judged

theorem string_of_nonStringKey? {f : Field} {known : List EnumDecl}
    (judged : f.nonStringKey? known = .ok none) (dictionary : f.type.base = "Dictionary") :
    ∃ key value, f.type.args = [key, value] ∧ key.StringKey known := by
  rw [nonStringKey?_eq] at judged
  obtain ⟨name?, named, judged⟩ := bind_eq_ok.mp judged
  cases shaped : f.type.shape with
  | error => rw [shaped] at named; cases named
  | ok s =>
    obtain ⟨key, value, args, rfl⟩ := TypeExpr.shape_dictionary dictionary shaped
    rw [shaped] at named
    cases named
    exact ⟨key, value, args, string_of_judge judged⟩

/-- The statements of a field whose key has been judged. -/
def store (f : Field) (params : List String) (key? : Option String) : List Statement :=
  (if key?.isSome then [.keyWarning] else []) ++
    [.store f.name (encodeExpression f.name f.type params)]

theorem encode_eq (f : Field) (params : List String) (known : List EnumDecl) :
    f.encode params known =
      f.nonStringKey? known >>= fun key? => .ok (f.store params key?, key?) := by
  unfold encode
  congr 1
  funext key?
  cases key? <;> rfl

end Field

namespace StructDecl

/-- The encoder of a struct, its fields being encoded. -/
def assemble (s : StructDecl) (rows : List (String × List Statement × Option String)) :
    Function × List Warning :=
  ({
    opening := "func " ++ encodeName
    parameters := s.encodeParameters
    result := "[String: AnyObject]"
    body := [.newDictionary, .blank] ++ (rows.map (·.2.1)).flatten ++ [.blank, .giveBack "dict"] },
   rows.filterMap fun (name, _, key?) => key?.map (⟨s.name, name, ·⟩))

/-- A field under its name, encoded. -/
def row (s : StructDecl) (known : List EnumDecl) (f : Field) :
    Except Defect (String × List Statement × Option String) := do
  .ok (f.name, ← f.encode s.parameters known)

theorem encoder_eq (s : StructDecl) (known : List EnumDecl) :
    s.encoder known = s.fields.mapM (s.row known) >>= fun rows => .ok (s.assemble rows) := by
  have rows : s.fields.mapM (s.row known) =
      (s.fields.mapM fun f => do Except.ok (f, ← f.encode s.parameters known)) >>= fun fields =>
        .ok (fields.map fun (f, encoded) => (f.name, encoded)) := by
    rw [← mapM_bind_ok]
    refine mapM_congr fun f _ => ?_
    unfold row
    cases f.encode s.parameters known <;> rfl
  rw [rows]
  unfold encoder
  cases s.fields.mapM fun f => do Except.ok (f, ← f.encode s.parameters known) with
  | error => rfl
  | ok fields =>
    simp [bind, Except.bind, assemble, warnings, List.filterMap_map, Function.comp_def]

/-- The judgement on each field, and the warning if there is one. -/
theorem judged_of_encoder {s : StructDecl} {known : List EnumDecl} {encoder : Function}
    {warnings : List Warning} (encoded : s.encoder known = .ok (encoder, warnings)) {f : Field}
    (member : f ∈ s.fields) :
    ∃ key?, f.nonStringKey? known = .ok key? ∧
      ∀ key, key? = some key → ⟨s.name, f.name, key⟩ ∈ warnings := by
  rw [encoder_eq] at encoded
  obtain ⟨rows, hrows, h⟩ := bind_eq_ok.mp encoded
  cases h
  obtain ⟨row, present, hrow⟩ := exists_of_forall₂ (mapM_eq_ok.mp hrows) member
  obtain ⟨⟨statements, key?⟩, hencode, h⟩ := bind_eq_ok.mp hrow
  cases h
  rw [Field.encode_eq] at hencode
  obtain ⟨key?, judged, h⟩ := bind_eq_ok.mp hencode
  cases h
  refine ⟨key?, judged, ?_⟩
  rintro key rfl
  exact List.mem_filterMap.mpr ⟨_, present, rfl⟩

end StructDecl

/-- If a struct can be encoded and there is no warning for a field that is a dictionary, the keys of
the field are strings. -/
theorem dictionary_field_has_string_keys (s : StructDecl) (known : List EnumDecl)
    (encoder : Function) (warnings : List Warning)
    (encoded : s.encoder known = .ok (encoder, warnings)) (f : Field) (member : f ∈ s.fields)
    (silent : ∀ w ∈ warnings, w.field ≠ f.name) (dictionary : f.type.base = "Dictionary") :
    ∃ key value, f.type.args = [key, value] ∧ key.StringKey known := by
  obtain ⟨key?, judged, warned⟩ := StructDecl.judged_of_encoder encoded member
  cases key? with
  | some key => exact absurd rfl (silent _ (warned key rfl))
  | none => exact Field.string_of_nonStringKey? judged dictionary

theorem dictionary_field_has_string_keys_color :
    let colors : Field := ⟨"colors", .dictionary (.named "Color") (.named "Int")⟩
    let levels : Field := ⟨"levels", .dictionary (.named "Level") (.named "Int")⟩
    let s : StructDecl := ⟨"Stats", [], [colors, levels], []⟩
    let known : List EnumDecl := [⟨"Color", "String"⟩, ⟨"Level", "Int"⟩]
    ∃ encoder, s.encoder known = .ok (encoder, [⟨"Stats", "levels", "Level"⟩]) ∧ colors ∈ s.fields ∧
      (∀ w ∈ [Warning.mk "Stats" "levels" "Level"], w.field ≠ colors.name) ∧
      colors.type.base = "Dictionary" ∧
      ∃ key value, colors.type.args = [key, value] ∧ key.StringKey known := by
  intro colors levels s known
  have member : colors ∈ s.fields := List.mem_cons_self
  have silent : ∀ w ∈ [Warning.mk "Stats" "levels" "Level"], w.field ≠ colors.name := by decide
  have encoded : ∃ encoder, s.encoder known = .ok (encoder, [⟨"Stats", "levels", "Level"⟩]) :=
    ⟨_, rfl⟩
  obtain ⟨encoder, encoded⟩ := encoded
  exact ⟨encoder, encoded, member, silent, rfl,
    dictionary_field_has_string_keys s known encoder _ encoded colors member silent rfl⟩

/-- A dictionary inside the type of a field is encoded without a judgement on its keys, wherever it
stands. -/
theorem nested_dictionary_not_judged :
    let inner : TypeExpr := .dictionary (.named "Int") (.named "String")
    let s : StructDecl := ⟨"Index", [],
      [⟨"a", .optional inner⟩, ⟨"b", .array inner⟩, ⟨"c", .dictionary (.named "String") inner⟩,
        ⟨"d", .generic "Box" [inner]⟩], []⟩
    (∀ f ∈ s.fields, f.type.validate = .ok ()) ∧ (∃ encoder, s.encoder [] = .ok (encoder, [])) ∧
      ∀ f ∈ s.fields, ∃ n ∈ f.type.encodedNodes s.parameters, n.base = "Dictionary" ∧
        ∃ key value, n.args = [key, value] ∧ ¬ key.StringKey [] := by
  intro inner s
  have reached : ∀ f ∈ s.fields, inner ∈ f.type.encodedNodes s.parameters := by
    simp [s, inner, TypeExpr.optional, TypeExpr.array, TypeExpr.dictionary, TypeExpr.generic,
      TypeExpr.named, TypeExpr.encodedNodes, TypeExpr.encodedNodesAll, Marker.of?, Marker.named?]
  have number : ¬ (TypeExpr.named "Int").StringKey [] := by
    simp [TypeExpr.StringKey, TypeExpr.resolvedName, TypeExpr.named]
  exact ⟨by decide, ⟨_, rfl⟩, fun f member => ⟨inner, reached f member, rfl, _, _, rfl, number⟩⟩

end SwiftCodec
