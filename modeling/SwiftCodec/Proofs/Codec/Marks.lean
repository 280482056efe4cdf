import SwiftCodec.Proofs.Codec.Keys

/-!
Which fields of a struct are marked. A field is marked with the name of its keys if it is a
dictionary keyed by a known enum that is not backed by strings; a key that is unknown stops the
encoder. The statements and the warnings of an encoder both come from the same marks.
-/
namespace SwiftCodec

/-- A dictionary whose keys go by the name. -/
def TypeExpr.Keyed (t : TypeExpr) (key : String) : Prop :=
  t.base = "Dictionary" ∧ ∃ k v, t.args = [k, v] ∧ k.resolvedName = key

theorem TypeExpr.base_of_shape_dictionary {t k v : TypeExpr}
    (shaped : t.shape = .ok (.dictionary k v)) : t.base = "Dictionary" := by
  unfold shape at shaped
  split at shaped
  · split at shaped <;> cases shaped
  · split at shaped
    · split at shaped <;> cases shaped
    · split at shaped
      · assumption
      · split at shaped <;> cases shaped

theorem TypeExpr.keyed_iff {t : TypeExpr} {s : Shape} (shaped : t.shape = .ok s) {key : String} :
    t.Keyed key ↔ s.keyName? = some key := by
  constructor
  · rintro ⟨dictionary, k, v, args, rfl⟩
    obtain ⟨k', v', args', rfl⟩ := shape_dictionary dictionary shaped
    cases args.symm.trans args'
    rfl
  · intro keyed
    cases s with
    | dictionary k v =>
      have dictionary := base_of_shape_dictionary shaped
      obtain ⟨k', v', args, h⟩ := shape_dictionary dictionary shaped
      cases h
      exact ⟨dictionary, k, v, args, Option.some.inj keyed⟩
    | _ => cases keyed

theorem TypeExpr.Keyed.shape {t : TypeExpr} {key : String} (keyed : t.Keyed key) :
    ∃ k v, t.shape = .ok (.dictionary k v) := by
  obtain ⟨base, target, args⟩ := t
  obtain ⟨rfl, k, v, rfl, _⟩ := keyed
  exact ⟨k, v, rfl⟩

namespace Field

variable {f : Field} {known : List EnumDecl} {key : String}

theorem judge_eq_some {field : String} {key? : Option String} :
    judge field known key? = .ok (some key) ↔
      key? = some key ∧ key ≠ "String" ∧
        ∃ e, known.find? (·.name = key) = some e ∧ e.rawType ≠ "String" := by
  cases key? with
  | none => simp [judge]
  | some name =>
    unfold judge
    by_cases string : name = "String"
    · simp only [if_pos string, Except.ok.injEq, reduceCtorEq, Option.some.injEq, false_iff]
      rintro ⟨rfl, other, _⟩
      exact other string
    · simp only [if_neg string, Option.some.injEq]
      cases found : known.find? (·.name = name) with
      | none =>
        simp only [reduceCtorEq, false_iff]
        rintro ⟨rfl, _, e, found', _⟩
        cases found.symm.trans found'
      | some e =>
        constructor
        · intro h
          by_cases raw : e.rawType = "String"
          · simp [raw] at h
          · simp only [if_neg raw] at h
            cases h
            exact ⟨rfl, string, e, found, raw⟩
        · rintro ⟨rfl, _, e', found', raw⟩
          cases found.symm.trans found'
          simp [raw]

theorem judge_eq_error {field : String} {key? : Option String} {d : Defect} :
    judge field known key? = .error d ↔
      ∃ key, key? = some key ∧ key ≠ "String" ∧ known.find? (·.name = key) = none ∧
        d = .unsupportedKey field key := by
  cases key? with
  | none => simp [judge]
  | some name =>
    unfold judge
    by_cases string : name = "String"
    · simp [string]
    · simp only [if_neg string, Option.some.injEq]
      cases found : known.find? (·.name = name) with
      | none =>
        constructor
        · intro h
          cases h
          exact ⟨name, rfl, string, found, rfl⟩
        · rintro ⟨_, rfl, _, _, rfl⟩
          rfl
      | some e =>
        simp only [reduceCtorEq, false_iff]
        rintro ⟨_, rfl, _, unknown, _⟩
        cases found.symm.trans unknown

theorem nonStringKey?_of_shape {s : Shape} (shaped : f.type.shape = .ok s) :
    f.nonStringKey? known = judge f.name known s.keyName? := by
  rw [nonStringKey?_eq, shaped]
  rfl

/-- A field is marked if its keys are those of a known enum with another raw type than `String`. -/
theorem nonStringKey?_eq_some :
    f.nonStringKey? known = .ok (some key) ↔
      f.type.Keyed key ∧ key ≠ "String" ∧
        ∃ e, known.find? (·.name = key) = some e ∧ e.rawType ≠ "String" := by
  cases shaped : f.type.shape with
  | error d =>
    rw [nonStringKey?_eq, shaped]
    constructor
    · intro h
      cases h
    · rintro ⟨keyed, _⟩
      obtain ⟨k, v, dictionary⟩ := keyed.shape
      cases shaped.symm.trans dictionary
  | ok s => rw [nonStringKey?_of_shape shaped, judge_eq_some, TypeExpr.keyed_iff shaped]

/-- A key that is neither `String` nor a known enum is the one thing that a field whose type has a
shape can fail by. -/
theorem nonStringKey?_eq_error {s : Shape} (shaped : f.type.shape = .ok s) {d : Defect} :
    f.nonStringKey? known = .error d ↔
      ∃ key, f.type.Keyed key ∧ key ≠ "String" ∧ known.find? (·.name = key) = none ∧
        d = .unsupportedKey f.name key := by
  simp only [nonStringKey?_of_shape shaped, judge_eq_error, TypeExpr.keyed_iff shaped]

/-- A field with what it is marked with. -/
def mark (known : List EnumDecl) (f : Field) : Except Defect (Field × Option String) :=
  (f.nonStringKey? known).map (f, ·)

theorem mark_eq_ok {mark : Field × Option String} :
    f.mark known = .ok mark ↔ mark.1 = f ∧ f.nonStringKey? known = .ok mark.2 := by
  obtain ⟨g, key?⟩ := mark
  rw [Field.mark, map_eq_ok]
  constructor
  · rintro ⟨_, judged, h⟩
    cases h
    exact ⟨rfl, judged⟩
  · rintro ⟨rfl, judged⟩
    exact ⟨key?, judged, rfl⟩

end Field

namespace StructDecl

theorem fields_eq_of_marked {s : StructDecl} {known : List EnumDecl}
    {marks : List (Field × Option String)} (marked : s.fields.mapM (·.mark known) = .ok marks) :
    s.fields = marks.map Prod.fst := by
  have same := (mapM_eq_ok.mp marked).imp fun f mark h => (Field.mark_eq_ok.mp h).1.symm
  exact List.forall₂_eq_eq_eq ▸ List.forall₂_map_right_iff.mpr same

/-- The statements of marked fields. -/
def stores (s : StructDecl) (marks : List (Field × Option String)) : List Statement :=
  marks.flatMap fun (f, key?) => f.store s.parameters key?

def encoderOf (s : StructDecl) (marks : List (Field × Option String)) : Function where
  opening := "func " ++ encodeName
  parameters := s.encodeParameters
  result := "[String: AnyObject]"
  body := [.newDictionary, .blank] ++ s.stores marks ++ [.blank, .giveBack "dict"]

def warningsOf (s : StructDecl) (marks : List (Field × Option String)) : List Warning :=
  marks.filterMap fun (f, key?) => key?.map (⟨s.name, f.name, ·⟩)

theorem encoder_eq_marks (s : StructDecl) (known : List EnumDecl) :
    s.encoder known =
      s.fields.mapM (·.mark known) >>= fun marks =>
        .ok (s.encoderOf marks, s.warningsOf marks) := by
  have rows : s.fields.mapM (s.row known) = s.fields.mapM (·.mark known) >>= fun marks =>
      .ok (marks.map fun (f, key?) => (f.name, f.store s.parameters key?, key?)) := by
    rw [← mapM_bind_ok]
    refine mapM_congr fun f _ => ?_
    unfold row Field.mark
    rw [Field.encode_eq]
    cases f.nonStringKey? known <;> rfl
  rw [encoder_eq, rows]
  cases s.fields.mapM (·.mark known) with
  | error => rfl
  | ok marks =>
    simp [bind, Except.bind, assemble, encoderOf, warningsOf, stores, List.filterMap_map,
      Function.comp_def, List.flatMap]

theorem encoder_eq_ok {s : StructDecl} {known : List EnumDecl} {e : Function} {ws : List Warning} :
    s.encoder known = .ok (e, ws) ↔
      ∃ marks, s.fields.mapM (·.mark known) = .ok marks ∧ e = s.encoderOf marks ∧
        ws = s.warningsOf marks := by
  rw [encoder_eq_marks, bind_eq_ok]
  refine exists_congr fun marks => and_congr_right fun _ => ?_
  constructor
  · intro h
    cases h
    exact ⟨rfl, rfl⟩
  · rintro ⟨rfl, rfl⟩
    rfl

theorem encoder_eq_error {s : StructDecl} {known : List EnumDecl} {d : Defect} :
    s.encoder known = .error d ↔ s.fields.mapM (·.mark known) = .error d := by
  rw [encoder_eq_marks, bind_ok_eq_error]

end StructDecl

end SwiftCodec
