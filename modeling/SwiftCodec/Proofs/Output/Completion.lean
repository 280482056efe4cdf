import SwiftCodec.Proofs.Declaration.Validity
import SwiftCodec.Proofs.Output.Emission
import SwiftCodec.Proofs.Registry.Scan

/-!
Exactly the missing codecs are generated. A type has a codec function if an extension in one of the
files lists it; what a file generates is, for each of its types in order, an extension by the
functions that are missing.
-/
namespace SwiftCodec

/-- The lines that are due to a type, given its name and what its decoder and encoder would be. -/
inductive Supplement (files : List SourceFile) (name : String)
    (decoder encoder : Except Defect Function) : List String → Prop where
  | nothing (decodes : Provides files name "decodeJson")
      (encodes : Provides files name "encodeJson") : Supplement files name decoder encoder []
  | decoder {d : Function} (lacking : ¬ Provides files name "decodeJson")
      (encodes : Provides files name "encodeJson") (made : decoder = .ok d) :
      Supplement files name decoder encoder
        (["extension " ++ name ++ " \x7b"] ++ d.lines ++ ["\x7d", ""])
  | encoder {e : Function} (decodes : Provides files name "decodeJson")
      (lacking : ¬ Provides files name "encodeJson") (made : encoder = .ok e) :
      Supplement files name decoder encoder
        (["extension " ++ name ++ " \x7b"] ++ e.lines ++ ["\x7d", ""])
  | both {d e : Function} (undecoded : ¬ Provides files name "decodeJson")
      (unencoded : ¬ Provides files name "encodeJson") (decodes : decoder = .ok d)
      (encodes : encoder = .ok e) :
      Supplement files name decoder encoder
        (["extension " ++ name ++ " \x7b"] ++ d.lines ++ [""] ++ e.lines ++ ["\x7d", ""])

/-- A function is there already, or it has been made. -/
inductive Missing (provided : Prop) (function : Except Defect Function) :
    Option Function → Prop where
  | provided (there : provided) : Missing provided function none
  | made {f : Function} (lacking : ¬ provided) (made : function = .ok f) :
      Missing provided function (some f)

theorem missing_of_ite {provided : Prop} {there : Bool} (known : there ↔ provided) (f : Function) :
    Missing provided (.ok f) (if there then none else some f) := by
  cases there with
  | true => exact .provided (known.mp rfl)
  | false => exact .made (fun h => Bool.false_ne_true (known.mpr h)) rfl

namespace Block

theorem countP_written (bs : List Block) :
    bs.countP (! ·.isVoid) = (bs.map written).countP (! ·.isEmpty) := by
  rw [List.countP_map]
  refine List.countP_congr fun b _ => ?_
  simp [written_eq_nil]

theorem supplement_written {files : List SourceFile} {name : String}
    {decoder encoder : Except Defect Function} {b : Block} (named : b.typeName = name)
    (decodes : Missing (Provides files name "decodeJson") decoder b.decoder)
    (encodes : Missing (Provides files name "encodeJson") encoder b.encoder) :
    Supplement files name decoder encoder b.written := by
  obtain ⟨_, d?, e?⟩ := b
  obtain rfl : _ = name := named
  cases decodes with
  | provided there =>
    cases encodes with
    | provided there' => exact .nothing there there'
    | made lacking made => exact .encoder there lacking made
  | made lacking made =>
    cases encodes with
    | provided there => exact .decoder lacking there made
    | made lacking' made' =>
      have written := Supplement.both lacking lacking' made made'
      simpa [Block.written, isVoid, Block.lines] using written

end Block

variable {files : List SourceFile}

theorem EnumDecl.supplement (files : List SourceFile) (e : EnumDecl) :
    Supplement files e.name (.ok e.decoder) (.ok e.encoder)
      (e.block (Registry.scan files).codecs).written :=
  Block.supplement_written rfl (missing_of_ite Registry.hasDecoder_scan _)
    (missing_of_ite Registry.hasEncoder_scan _)

namespace StructDecl

variable {codecs : Codecs} {known : List EnumDecl} {s : StructDecl}

theorem missing_of_missingDecoder {provided : Prop} (there : codecs.hasDecoder s.name ↔ provided)
    {d? : Option Function} (done : s.missingDecoder codecs = .ok d?) :
    Missing provided s.decoder d? := by
  rcases missingDecoder_cases done with ⟨has, rfl⟩ | ⟨lacking, d, made, rfl⟩
  · exact .provided (there.mp has)
  · exact .made (mt there.mpr lacking) made

theorem missing_of_missingEncoder {provided : Prop} (there : codecs.hasEncoder s.name ↔ provided)
    {e? : Option Function} {ws : List Warning}
    (done : s.missingEncoder codecs known = .ok (e?, ws)) :
    Missing provided ((s.encoder known).map Prod.fst) e? := by
  rcases missingEncoder_cases done with ⟨has, rfl, _⟩ | ⟨lacking, e, made, rfl⟩
  · exact .provided (there.mp has)
  · exact .made (mt there.mpr lacking) (map_eq_ok.mpr ⟨_, made, rfl⟩)

theorem supplement {b : Block} {ws : List Warning}
    (emitted : s.block (Registry.scan files).codecs known = .ok (b, ws)) :
    Supplement files s.name s.decoder ((s.encoder known).map Prod.fst) b.written := by
  obtain ⟨named, decodes, encodes⟩ := block_eq_ok.mp emitted
  exact Block.supplement_written named
    (missing_of_missingDecoder Registry.hasDecoder_scan decodes)
    (missing_of_missingEncoder Registry.hasEncoder_scan encodes)

end StructDecl

/-- After the header a generated file has, for each enum and then for each struct in the order of
the source file, what is due to the type, and no two of its types share a name. -/
theorem generates_missing_codecs (files : List SourceFile) (file : SourceFile) (time : Time)
    (g : GeneratedFile) (generated : file.generate (Registry.scan files) time = .ok g) :
    ∃ structs known enumParts structParts,
      file.flatten.structs.mapM (Registry.scan files).resolveStruct = .ok structs ∧
      (Registry.scan files).knownEnums file.flatten.enums = .ok known ∧
      List.Forall₂ (fun e part => Supplement files e.name (.ok e.decoder) (.ok e.encoder) part)
        file.flatten.enums enumParts ∧
      List.Forall₂
        (fun s part => Supplement files s.name s.decoder ((s.encoder known).map Prod.fst) part)
        structs structParts ∧
      g.listing.lines = Section.headerLines (outputFilename file.filename) time ++
        (enumParts ++ structParts).flatten ∧
      g.listing.extensions = (enumParts ++ structParts).countP (! ·.isEmpty) ∧
      (file.flatten.enums.map (·.name) ++ file.flatten.structs.map (·.name)).Nodup := by
  obtain ⟨valid, structs, known, rows, resolved, enums, emitted, rfl⟩ :=
    SourceFile.generate_eq_ok.mp generated
  refine ⟨structs, known,
    file.flatten.enums.map fun e => (e.block (Registry.scan files).codecs).written,
    rows.map fun row => row.1.written, resolved, enums, ?_, ?_,
    file.lines_assemble time (Registry.scan files).codecs rows, ?_, ?_⟩
  · exact List.forall₂_map_right_iff.mpr (List.forall₂_same.mpr fun e _ => e.supplement files)
  · exact List.forall₂_map_right_iff.mpr
      ((mapM_eq_ok.mp emitted).imp fun s row h => StructDecl.supplement h)
  · rw [SourceFile.assemble, Listing.extensions_add, Block.countP_written]
    simp [Function.comp_def]
  · exact List.perm_append_comm.nodup (Inventory.validate_eq_ok.mp valid).1.2

theorem generates_missing_codecs_shapes :
    ∃ g structs known enumParts structParts,
      shapes.generate (Registry.scan [shapes, support]) ⟨0, 0⟩ = .ok g ∧
      shapes.flatten.structs.mapM (Registry.scan [shapes, support]).resolveStruct = .ok structs ∧
      (Registry.scan [shapes, support]).knownEnums shapes.flatten.enums = .ok known ∧
      List.Forall₂
        (fun e part => Supplement [shapes, support] e.name (.ok e.decoder) (.ok e.encoder) part)
        shapes.flatten.enums enumParts ∧
      List.Forall₂
        (fun s part => Supplement [shapes, support] s.name s.decoder
          ((s.encoder known).map Prod.fst) part) structs structParts ∧
      g.listing.lines = Section.headerLines (outputFilename shapes.filename) ⟨0, 0⟩ ++
        (enumParts ++ structParts).flatten ∧
      g.listing.extensions = (enumParts ++ structParts).countP (! ·.isEmpty) ∧
      (shapes.flatten.enums.map (·.name) ++ shapes.flatten.structs.map (·.name)).Nodup := by
  obtain ⟨g, generated, _⟩ := shapes_generate ⟨0, 0⟩
  obtain ⟨structs, known, enumParts, structParts, parts⟩ :=
    generates_missing_codecs [shapes, support] shapes ⟨0, 0⟩ g generated
  exact ⟨g, structs, known, enumParts, structParts, generated, parts⟩

end SwiftCodec
