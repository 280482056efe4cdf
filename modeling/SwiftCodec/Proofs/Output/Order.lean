import SwiftCodec.Proofs.Codec.Marks
import SwiftCodec.Proofs.Output.Emission
import SwiftCodec.Proofs.Registry.Agreement
import SwiftCodec.Proofs.Registry.Resolving

/-!
The order of the files has no part in what is generated, as long as no two of them declare an alias
or an enum of one name. Only if an alias refers to itself in the raw type of an enum, the order
decides which one is met.
-/
namespace SwiftCodec

variable {r r' : Registry} {known known' : List EnumDecl}

namespace StructDecl

theorem encoder_congr_known
    (same : ∀ key : String, known.find? (·.name = key) = known'.find? (·.name = key))
    (s : StructDecl) : s.encoder known = s.encoder known' := by
  have judged (field : String) : Field.judge field known = Field.judge field known' := by
    funext key?
    cases key? with
    | none => rfl
    | some key => simp only [Field.judge, same]
  have marks : ∀ f : Field, f.mark known = f.mark known' := by
    intro f
    simp only [Field.mark, Field.nonStringKey?_eq, judged]
  simp only [encoder_eq_marks, marks]

theorem block_congr (agree : r.Agree r')
    (same : ∀ key : String, known.find? (·.name = key) = known'.find? (·.name = key))
    (s : StructDecl) : s.block r.codecs known = s.block r'.codecs known' := by
  simp only [block, missingDecoder, missingEncoder, agree.decoders, agree.encoders,
    encoder_congr_known same]

end StructDecl

theorem SourceFile.assemble_congr (agree : r.Agree r') (file : SourceFile) (time : Time)
    (rows : List (Block × List Warning)) :
    file.assemble time r.codecs rows = file.assemble time r'.codecs rows := by
  simp only [assemble, EnumDecl.block, agree.decoders, agree.encoders]

/-- An alias that refers to itself is met in the raw types of the known enums, where nothing has
gone wrong before. -/
structure MeetsEnumCycle (r : Registry) (file : SourceFile) (time : Time) : Prop where
  valid : file.validate = .ok ()
  structs : ∃ structs, file.flatten.structs.mapM r.resolveStruct = .ok structs
  cycle : ∃ name, r.knownEnums file.flatten.enums = .error (.aliasCycle name) ∧
    file.generate r time = .error (.aliasCycle name)

theorem meetsEnumCycle_of_error {file : SourceFile} {structs : List StructDecl} {d : Defect}
    (valid : file.validate = .ok ())
    (resolved : file.flatten.structs.mapM r.resolveStruct = .ok structs)
    (failed : r.knownEnums file.flatten.enums = .error d) (time : Time) :
    MeetsEnumCycle r file time := by
  obtain ⟨n, rfl⟩ := Registry.aliasCycle_of_knownEnums failed
  refine ⟨valid, ⟨structs, resolved⟩, n, failed, ?_⟩
  exact SourceFile.generate_eq_error.mpr (.inr ⟨valid, .inr ⟨structs, resolved, .inl failed⟩⟩)

/-- Against registries that agree a file is generated alike. -/
theorem generate_agree (agree : r.Agree r') (distinct : r.enums.keys.Nodup)
    (distinct' : r'.enums.keys.Nodup) (file : SourceFile) (time : Time) :
    file.generate r time = file.generate r' time ∨
      MeetsEnumCycle r file time ∧ MeetsEnumCycle r' file time := by
  rw [file.generate_eq r, file.generate_eq r']
  cases valid : file.validate with
  | error d => exact .inl rfl
  | ok _ =>
    have structsEq : file.flatten.structs.mapM r.resolveStruct =
        file.flatten.structs.mapM r'.resolveStruct := by rw [agree.resolveStruct_eq]
    rw [structsEq]
    cases resolved : file.flatten.structs.mapM r'.resolveStruct with
    | error d => exact .inl rfl
    | ok structs =>
      -- The known enums may now be in different orders, and so may be the errors among them.
      have fails := agree.knownEnums_fails_iff distinct distinct' file.flatten.enums
      cases enums : r.knownEnums file.flatten.enums with
      | error d =>
        obtain ⟨d', enums'⟩ := fails.mp ⟨d, enums⟩
        exact .inr ⟨meetsEnumCycle_of_error valid (structsEq.trans resolved) enums time,
          meetsEnumCycle_of_error valid resolved enums' time⟩
      | ok known =>
        cases enums' : r'.knownEnums file.flatten.enums with
        | error d' =>
          obtain ⟨d, enums''⟩ := fails.mpr ⟨d', enums'⟩
          cases enums.symm.trans enums''
        | ok known' =>
          have same := agree.find?_known_eq enums enums'
          have blocks : (fun s => StructDecl.block r.codecs known s) =
              StructDecl.block r'.codecs known' := funext (StructDecl.block_congr agree same)
          left
          simp only [bind, Except.bind, blocks, SourceFile.assemble_congr agree]

/-- The files may come in any order if no alias name and no enum name is declared in two of them. -/
theorem generation_ignores_order (files files' : List SourceFile) (permuted : files.Perm files')
    (aliases : Registry.Apart files (·.flatten.aliases) (·.name))
    (enums : Registry.Apart files (·.flatten.enums) (·.name)) (file : SourceFile) (time : Time) :
    file.generate (Registry.scan files) time = file.generate (Registry.scan files') time ∨
      MeetsEnumCycle (Registry.scan files) file time ∧
        MeetsEnumCycle (Registry.scan files') file time :=
  generate_agree (Registry.scan_agree permuted aliases enums) (Registry.nodup_enums_scan files)
    (Registry.nodup_enums_scan files') file time

theorem generation_ignores_order_shapes :
    [shapes, support].Perm [support, shapes] ∧
    Registry.Apart [shapes, support] (·.flatten.aliases) (·.name) ∧
    Registry.Apart [shapes, support] (·.flatten.enums) (·.name) ∧
    (shapes.generate (Registry.scan [shapes, support]) ⟨0, 0⟩ =
        shapes.generate (Registry.scan [support, shapes]) ⟨0, 0⟩ ∨
      MeetsEnumCycle (Registry.scan [shapes, support]) shapes ⟨0, 0⟩ ∧
        MeetsEnumCycle (Registry.scan [support, shapes]) shapes ⟨0, 0⟩) := by
  have permuted : [shapes, support].Perm [support, shapes] := .swap support shapes []
  have aliases : Registry.Apart [shapes, support] (·.flatten.aliases) (·.name) := by
    have none : shapes.flatten.aliases = [] := rfl
    simp [Registry.Apart, none]
  have enums : Registry.Apart [shapes, support] (·.flatten.enums) (·.name) := by
    have none : support.flatten.enums = [] := rfl
    simp [Registry.Apart, none]
  exact ⟨permuted, aliases, enums,
    generation_ignores_order [shapes, support] [support, shapes] permuted aliases enums shapes
      ⟨0, 0⟩⟩

end SwiftCodec
