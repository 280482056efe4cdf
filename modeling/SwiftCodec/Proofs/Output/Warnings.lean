import SwiftCodec.Proofs.Codec.Remarks
import SwiftCodec.Proofs.Output.Emission
import SwiftCodec.Proofs.Output.Judgement
import SwiftCodec.Proofs.Registry.Resolving

/-!
The warnings of a generated file and its remarks. Both go over the fields of its structs in order,
and of every field that is to be warned of there is one warning and one remark, in front of the line
that stores the field.
-/
namespace SwiftCodec

/-- The warnings of fields, and for each the line that stores the field. -/
inductive Annotated (r : Registry) (enums : List EnumDecl) :
    List (StructDecl × Field) → List Warning → List String → Prop where
  | nil : Annotated r enums [] [] []
  | warned {s : StructDecl} {f : Field} {u : TypeExpr} {key : String}
      {fields : List (StructDecl × Field)} {warnings : List Warning} {stores : List String}
      (warned : Warned r enums s f u key) (rest : Annotated r enums fields warnings stores) :
      Annotated r enums ((s, f) :: fields) (⟨s.name, f.name, key⟩ :: warnings)
        (assignment f.name u s.parameters :: stores)
  | silent {s : StructDecl} {f : Field} {fields : List (StructDecl × Field)}
      {warnings : List Warning} {stores : List String}
      (silent : ∀ u key, ¬ Warned r enums s f u key)
      (rest : Annotated r enums fields warnings stores) :
      Annotated r enums ((s, f) :: fields) warnings stores

variable {r : Registry} {enums known : List EnumDecl}

namespace Annotated

variable {fields fields' : List (StructDecl × Field)} {warnings warnings' : List Warning}
  {stores stores' : List String}

theorem append (first : Annotated r enums fields warnings stores)
    (last : Annotated r enums fields' warnings' stores') :
    Annotated r enums (fields ++ fields') (warnings ++ warnings') (stores ++ stores') := by
  induction first with
  | nil => exact last
  | warned warned _ ih => exact .warned warned ih
  | silent silent _ ih => exact .silent silent ih

theorem none_of_hasEncoder {s : StructDecl} (there : r.codecs.hasEncoder s.name) (fs : List Field) :
    Annotated r enums (fs.map (s, ·)) [] [] := by
  induction fs with
  | nil => exact .nil
  | cons f fs ih => exact .silent (fun u key warned => warned.lacking there) ih

end Annotated

namespace Block

variable {stores : List String}

/-- Around the encoder of a block no line reads as a remark. -/
theorem written_around_encoder {b : Block}
    (decodes : ∀ d, b.decoder = some d → ∀ l ∈ d.lines, Text.Plain l) :
    ∃ front back, (∀ l ∈ front, Text.Plain l) ∧ (∀ l ∈ back, Text.Plain l) ∧
      b.written = front ++ (b.encoder.elim [] Function.lines ++ back) := by
  obtain ⟨name, decoder?, encoder?⟩ := b
  have header : ∀ l ∈ ["extension " ++ name ++ " \x7b"], Text.Plain l := by
    simp only [String.append_assoc]
    exact List.forall_mem_singleton.mpr (Text.plain_append (by decide) (by decide))
  have close : ∀ l ∈ ["\x7d", ""], Text.Plain l := by decide
  have gap : ∀ l ∈ [""], Text.Plain l := by decide
  cases decoder? with
  | none =>
    cases encoder? with
    | none => exact ⟨[], [], by simp, by simp, rfl⟩
    | some e => exact ⟨_, _, header, close, by simp [written, isVoid, lines]⟩
  | some d =>
    have opening := List.forall_mem_append.mpr ⟨header, decodes d rfl⟩
    cases encoder? with
    | none => exact ⟨_, _, opening, close, by simp [written, isVoid, lines]⟩
    | some e =>
      exact ⟨_, _, List.forall_mem_append.mpr ⟨opening, gap⟩, close,
        by simp [written, isVoid, lines]⟩

theorem afterRemarks_written {b : Block}
    (decodes : ∀ d, b.decoder = some d → ∀ l ∈ d.lines, Text.Plain l)
    (encodes : ∀ rest, afterRemarks (b.encoder.elim [] Function.lines ++ rest) =
      stores.map some ++ afterRemarks rest) (rest : List String) :
    afterRemarks (b.written ++ rest) = stores.map some ++ afterRemarks rest := by
  obtain ⟨front, back, opening, closing, written⟩ := written_around_encoder decodes
  rw [written, List.append_assoc, afterRemarks_plain opening, List.append_assoc, encodes,
    afterRemarks_plain closing]

end Block

namespace StructDecl

variable {s s' : StructDecl}

/-- What resolved fields are marked with is what the fields are to be warned of. -/
theorem annotated_marks (enumsResolved : r.knownEnums enums = .ok known)
    (lacking : ¬ r.codecs.hasEncoder s.name) (name : s'.name = s.name)
    (parameters : s'.parameters = s.parameters) {fs fs' : List Field}
    {marks : List (Field × Option String)}
    (fields : List.Forall₂
      (fun f f' => f'.name = f.name ∧ r.aliases.resolveIn s.parameters [] f.type = .ok f'.type)
      fs fs')
    (marked : List.Forall₂ (fun f mark => f.mark known = .ok mark) fs' marks) :
    Annotated r enums (fs.map (s, ·)) (s'.warningsOf marks) (s'.remarked marks) := by
  induction fields generalizing marks with
  | nil =>
    cases marked
    exact .nil
  | @cons f f' fs fs' head _ ih =>
    cases marked with
    | @cons _ mark _ marks hmark rest =>
      obtain ⟨⟨fieldName, type⟩, key?⟩ := mark
      obtain ⟨rfl, judged⟩ := Field.mark_eq_ok.mp hmark
      obtain ⟨rfl, resolved⟩ := head
      have tail := ih rest
      cases key? with
      | none =>
        -- The type of a field resolves in one way only, so no other reading of it is left.
        have silent : ∀ u key, ¬ Warned r enums s f u key := by
          intro u key warned
          cases resolved.symm.trans warned.resolved
          have marked := (marked_iff_warned enumsResolved lacking resolved key).mpr warned
          cases judged.symm.trans marked
        exact .silent silent tail
      | some key =>
        have warned := (marked_iff_warned enumsResolved lacking resolved key).mp judged
        have annotated := Annotated.warned warned tail
        simpa [warningsOf, remarked, name, parameters] using annotated

theorem plain_missingDecoder {codecs : Codecs} {decoder : Option Function}
    (decodes : s.missingDecoder codecs = .ok decoder) :
    ∀ d, decoder = some d → ∀ l ∈ d.lines, Text.Plain l := by
  rintro d rfl
  rcases missingDecoder_cases decodes with ⟨_, h⟩ | ⟨_, _, made, h⟩
  · cases h
  · cases h
    exact plain_decoder made

/-- The block of a struct annotates the fields of the struct. -/
theorem annotated_block (enumsResolved : r.knownEnums enums = .ok known)
    (resolved : r.Resolves s s') {b : Block} {ws : List Warning}
    (emitted : s'.block r.codecs known = .ok (b, ws)) :
    ∃ stores, Annotated r enums (s.fields.map (s, ·)) ws stores ∧
      ∀ rest, afterRemarks (b.written ++ rest) = stores.map some ++ afterRemarks rest := by
  obtain ⟨_, decodes, encodes⟩ := block_eq_ok.mp emitted
  have plain := plain_missingDecoder decodes
  have sameName := resolved.name
  rcases missingEncoder_cases encodes with ⟨there, none, rfl⟩ | ⟨lacking, e, made, some⟩
  · rw [sameName] at there
    have encoder (rest : List String) : afterRemarks (b.encoder.elim [] Function.lines ++ rest) =
        ([] : List String).map .some ++ afterRemarks rest := by
      rw [none]
      rfl
    exact ⟨[], .none_of_hasEncoder there s.fields, Block.afterRemarks_written plain encoder⟩
  · rw [sameName] at lacking
    obtain ⟨marks, marked, rfl, rfl⟩ := encoder_eq_ok.mp made
    have annotated := annotated_marks enumsResolved lacking sameName resolved.parameters
      resolved.fields (mapM_eq_ok.mp marked)
    have encoder (rest : List String) : afterRemarks (b.encoder.elim [] Function.lines ++ rest) =
        (s'.remarked marks).map .some ++ afterRemarks rest := by
      rw [some]
      exact s'.afterRemarks_encoder marks rest
    exact ⟨s'.remarked marks, annotated, Block.afterRemarks_written plain encoder⟩

theorem annotated_blocks (enumsResolved : r.knownEnums enums = .ok known)
    {structs structs' : List StructDecl} {rows : List (Block × List Warning)}
    (resolved : List.Forall₂ r.Resolves structs structs')
    (emitted : List.Forall₂ (fun s row => s.block r.codecs known = .ok row) structs' rows) :
    ∃ stores,
      Annotated r enums (structs.flatMap fun s => s.fields.map (s, ·)) (rows.flatMap Prod.snd)
        stores ∧
      afterRemarks (rows.map fun row => row.1.written).flatten = stores.map some := by
  induction resolved generalizing rows with
  | nil =>
    cases emitted
    exact ⟨[], .nil, rfl⟩
  | cons head _ ih =>
    cases emitted with
    | @cons _ row _ rows block rest =>
      obtain ⟨stores, annotated, lines⟩ := annotated_block enumsResolved head block
      obtain ⟨stores', annotated', lines'⟩ := ih rest
      refine ⟨stores ++ stores', annotated.append annotated', ?_⟩
      rw [List.map_cons, List.flatten_cons, lines, lines', List.map_append]

end StructDecl

theorem EnumDecl.afterRemarks_block (codecs : Codecs) (e : EnumDecl) (rest : List String) :
    afterRemarks ((e.block codecs).written ++ rest) = afterRemarks rest := by
  have plain : ∀ d, (e.block codecs).decoder = some d → ∀ l ∈ d.lines, Text.Plain l := by
    intro d made
    unfold block at made
    dsimp only at made
    split at made
    · cases made
    · cases made
      exact e.plain_decoder
  have encoder : ∀ rest, afterRemarks ((e.block codecs).encoder.elim [] Function.lines ++ rest) =
      ([] : List String).map some ++ afterRemarks rest := by
    intro rest
    unfold block
    dsimp only
    split
    · rfl
    · exact afterRemarks_plain e.plain_encoder rest
  exact Block.afterRemarks_written plain encoder rest

theorem EnumDecl.afterRemarks_blocks (codecs : Codecs) (enums : List EnumDecl)
    (rest : List String) :
    afterRemarks ((enums.map fun e => (e.block codecs).written).flatten ++ rest) =
      afterRemarks rest := by
  induction enums with
  | nil => rfl
  | cons e enums ih =>
    rw [List.map_cons, List.flatten_cons, List.append_assoc, e.afterRemarks_block, ih]

theorem plain_header (filename : String) (time : Time) :
    ∀ l ∈ Section.headerLines filename time, Text.Plain l := by
  simp only [Section.headerLines, List.forall_mem_cons]
  have slashes : Text.Plain "//" := by decide
  have filename : Text.Plain ("//  " ++ filename) := Text.plain_append (by decide) (by decide)
  have date (rest : String) : Text.Plain ("//  Auto generated by swift-json-gen on " ++ rest) :=
    Text.plain_append (by decide) (by decide)
  exact ⟨slashes, filename, slashes, date _, by decide, slashes, by decide, by decide, by decide,
    List.forall_mem_nil _⟩

/-- If a file is generated, its warnings are those of the fields to be warned of, and the lines that
read as the remark are as many, each in front of the line that stores the field of its warning. -/
theorem generates_exact_warnings (file : SourceFile) (r : Registry) (time : Time)
    (g : GeneratedFile) (generated : file.generate r time = .ok g) :
    ∃ stores, Annotated r file.flatten.enums file.fields g.listing.warnings stores ∧
      afterRemarks g.listing.lines = stores.map some := by
  obtain ⟨_, structs, known, rows, resolved, enumsResolved, emitted, rfl⟩ :=
    SourceFile.generate_eq_ok.mp generated
  obtain ⟨stores, annotated, lines⟩ := StructDecl.annotated_blocks enumsResolved
    (Registry.resolves_structs resolved) (mapM_eq_ok.mp emitted)
  refine ⟨stores, annotated, ?_⟩
  rw [SourceFile.lines_assemble, afterRemarks_plain (plain_header _ time), List.flatten_append,
    EnumDecl.afterRemarks_blocks, lines]

theorem generates_exact_warnings_shapes :
    ∃ g, shapes.generate (Registry.scan [shapes, support]) ⟨0, 0⟩ = .ok g ∧
      g.listing.warnings = [⟨"Outer", "names", "Level"⟩] ∧
      ∃ stores, Annotated (Registry.scan [shapes, support]) shapes.flatten.enums shapes.fields
          g.listing.warnings stores ∧
        afterRemarks g.listing.lines = stores.map some := by
  obtain ⟨g, generated, warned⟩ := shapes_generate ⟨0, 0⟩
  exact ⟨g, generated, warned,
    generates_exact_warnings shapes (Registry.scan [shapes, support]) ⟨0, 0⟩ g generated⟩

end SwiftCodec
