import SwiftCodec.Proofs.Output.Reduction

/-!
Generating again once the generated code is there. Every type of the files has then both functions,
those that it had before and those that were generated for it, so nothing is left to generate.
-/
namespace SwiftCodec

namespace Block

def functions (b : Block) : List String :=
  (b.decoder.map fun _ => decodeName).toList ++ (b.encoder.map fun _ => encodeName).toList

/-- A block as a parser of the generated code sees it. -/
def extension (b : Block) : ExtensionDecl := ⟨b.typeName, b.functions⟩

theorem decodeName_mem_functions {b : Block} : decodeName ∈ b.functions ↔ b.decoder.isSome := by
  have other : decodeName ≠ encodeName := by decide
  cases h : b.decoder <;> cases h' : b.encoder <;> simp [functions, h, h', other]

theorem encodeName_mem_functions {b : Block} : encodeName ∈ b.functions ↔ b.encoder.isSome := by
  have other : encodeName ≠ decodeName := by decide
  cases h : b.decoder <;> cases h' : b.encoder <;> simp [functions, h, h', other]

end Block

def Section.block? : Section → Option Block
  | .header _ _ => none
  | .block b => some b

namespace GeneratedFile

def blocks (g : GeneratedFile) : List Block := g.listing.sections.filterMap Section.block?

theorem mem_blocks {g : GeneratedFile} {b : Block} :
    b ∈ g.blocks ↔ .block b ∈ g.listing.sections := by
  rw [blocks, List.mem_filterMap]
  constructor
  · rintro ⟨s, member, found⟩
    cases s with
    | header => cases found
    | block => cases found; exact member
  · intro member
    exact ⟨_, member, rfl⟩

end GeneratedFile

/-- A file declares the extensions that generated files consist of, and nothing else. -/
structure Reports (e : SourceFile) (gs : List GeneratedFile) : Prop where
  sound : ∀ d ∈ e.declarations, ∃ g ∈ gs, ∃ b ∈ g.blocks, d = .extension b.extension
  complete : ∀ g ∈ gs, ∀ b ∈ g.blocks, .extension b.extension ∈ e.declarations

/-- The extensions in the order in which they were generated. -/
def report (filename : String) (gs : List GeneratedFile) : SourceFile where
  filename := filename
  declarations := gs.flatMap fun g => g.blocks.map (.extension ·.extension)

theorem reports_report (filename : String) (gs : List GeneratedFile) :
    Reports (report filename gs) gs where
  sound d declared := by
    obtain ⟨g, member, found⟩ := List.mem_flatMap.mp declared
    obtain ⟨b, block, rfl⟩ := List.mem_map.mp found
    exact ⟨g, member, b, block, rfl⟩
  complete g member b block :=
    List.mem_flatMap.mpr ⟨g, member, List.mem_map_of_mem block⟩

namespace Reports

variable {e : SourceFile} {gs : List GeneratedFile}

theorem flatten_eq_nil (reported : Reports e gs) :
    e.flatten.aliases = [] ∧ e.flatten.enums = [] := by
  refine Declaration.inventoryAll_extensions none fun d declared => ?_
  obtain ⟨_, _, b, _, rfl⟩ := reported.sound d declared
  exact ⟨_, rfl⟩

theorem provides (reported : Reports e gs) {files : List SourceFile} (member : e ∈ files)
    {g : GeneratedFile} (generated : g ∈ gs) {b : Block} (block : b ∈ g.blocks) {function : String}
    (listed : function ∈ b.functions) : Provides files b.typeName function := by
  have declared := reported.complete g generated b block
  exact ⟨e, member, b.extension, .here declared, rfl, listed⟩

end Reports

namespace SourceFile

variable {file : SourceFile} {r : Registry} {time : Time}

/-- Which blocks and warnings there are does not depend on the time. -/
theorem generate_at {g : GeneratedFile} (generated : file.generate r time = .ok g) (time' : Time) :
    ∃ g', file.generate r time' = .ok g' ∧ (∀ b ∈ g'.blocks, b ∈ g.blocks) ∧
      g'.listing.warnings = g.listing.warnings := by
  obtain ⟨valid, structs, known, rows, resolved, enums, emitted, rfl⟩ := generate_eq_ok.mp generated
  refine ⟨file.assemble time' r.codecs rows, ?_, fun b member => ?_, rfl⟩
  · exact generate_eq_ok.mpr ⟨valid, structs, known, rows, resolved, enums, emitted, rfl⟩
  · have there := mem_sections_assemble.mp (GeneratedFile.mem_blocks.mp member)
    exact GeneratedFile.mem_blocks.mpr (mem_sections_assemble.mpr there)

/-- A warning comes with an encoder. -/
theorem encoder_of_warning {g : GeneratedFile} (generated : file.generate r time = .ok g)
    {w : Warning} (warned : w ∈ g.listing.warnings) :
    ∃ b ∈ g.blocks, b.typeName = w.typeName ∧ b.encoder.isSome := by
  obtain ⟨_, structs, known, rows, _, _, emitted, rfl⟩ := generate_eq_ok.mp generated
  have member : w ∈ rows.flatMap Prod.snd := warned
  obtain ⟨⟨b, ws⟩, row, inRow⟩ := List.mem_flatMap.mp member
  obtain ⟨s, _, made⟩ := exists_of_forall₂ (mapM_eq_ok.mp emitted).flip row
  obtain ⟨named, _, encodes⟩ := StructDecl.block_eq_ok.mp made
  rcases StructDecl.missingEncoder_cases encodes with ⟨_, _, none⟩ | ⟨_, e, encoder, some⟩
  · rw [none] at inRow
    cases inRow
  · have encoded : b.encoder.isSome := by rw [some]; rfl
    have written : ¬ b.isVoid := by simp [Block.isVoid, some]
    have listed : b ∈ file.flatten.enums.map (·.block r.codecs) ++ rows.map Prod.fst :=
      List.mem_append_right _ (List.mem_map_of_mem row)
    refine ⟨b, GeneratedFile.mem_blocks.mpr ?_, ?_, encoded⟩
    · exact mem_sections_assemble.mpr ⟨listed, written⟩
    · rw [named, StructDecl.typeName_of_encoder encoder w inRow]

end SourceFile

/-- Nothing is left of a listing if all its functions exist. -/
theorem Listing.without_eq_empty {codecs : Codecs} {g : GeneratedFile}
    (decodes : ∀ b ∈ g.blocks, b.decoder.isSome → codecs.hasDecoder b.typeName)
    (encodes : ∀ b ∈ g.blocks, b.encoder.isSome → codecs.hasEncoder b.typeName) :
    (g.listing.without codecs).isEmpty := by
  have none_left : ∀ s ∈ (g.listing.without codecs).sections, ¬ s.isBlock := by
    intro s member
    obtain ⟨s', before, left⟩ := List.mem_filterMap.mp member
    cases s' with
    | header =>
      cases left
      exact Bool.false_ne_true
    | block b =>
      have block := GeneratedFile.mem_blocks.mpr before
      have void : (b.without codecs).isVoid := by
        have decoder := decodes b block
        have encoder := encodes b block
        cases hd : b.decoder <;> cases he : b.encoder <;>
          simp_all [Block.isVoid, Block.without]
      simp [Section.without?, void] at left
  have count : (g.listing.without codecs).extensions = 0 := List.countP_eq_zero.mpr none_left
  simp [isEmpty, count]

/-- If all files can be generated, then with a file among them that declares what was generated each
can be generated again, with nothing in it and no warnings. -/
theorem generation_saturates (before after : List SourceFile) (e : SourceFile)
    (gs : List GeneratedFile)
    (generated : List.Forall₂
      (fun file g => ∃ time, file.generate (Registry.scan (before ++ after)) time = .ok g)
      (before ++ after) gs)
    (reported : Reports e gs) (file : SourceFile) (member : file ∈ before ++ after) (time : Time) :
    ∃ g, file.generate (Registry.scan (before ++ e :: after)) time = .ok g ∧
      g.listing.isEmpty ∧ g.listing.warnings = [] := by
  obtain ⟨g, made, time', first⟩ := exists_of_forall₂ generated member
  obtain ⟨g', again, blocks, _⟩ := SourceFile.generate_at first time
  have placed : e ∈ before ++ e :: after := List.mem_append_right _ List.mem_cons_self
  have decodes : ∀ b ∈ g'.blocks, b.decoder.isSome →
      (Registry.scan (before ++ e :: after)).codecs.hasDecoder b.typeName := by
    intro b block some
    have listed := Block.decodeName_mem_functions.mpr some
    exact Registry.hasDecoder_scan.mpr (reported.provides placed made (blocks b block) listed)
  have encodes : ∀ b ∈ g'.blocks, b.encoder.isSome →
      (Registry.scan (before ++ e :: after)).codecs.hasEncoder b.typeName := by
    intro b block some
    have listed := Block.encodeName_mem_functions.mpr some
    exact Registry.hasEncoder_scan.mpr (reported.provides placed made (blocks b block) listed)
  obtain ⟨aliases, enums⟩ := reported.flatten_eq_nil
  have within := Registry.within_scan_insert before after e
  refine ⟨⟨g'.filename, g'.listing.without (Registry.scan (before ++ e :: after)).codecs⟩, ?_,
    Listing.without_eq_empty decodes encodes, ?_⟩
  · rw [Registry.scan_insert aliases enums]
    exact SourceFile.generate_within within again
  · refine List.filter_eq_nil_iff.mpr fun w warned => ?_
    obtain ⟨b, block, named, some⟩ := SourceFile.encoder_of_warning again warned
    simp [← named, encodes b block some]

theorem support_generate (time : Time) :
    ∃ g, support.generate (Registry.scan [shapes, support]) time = .ok g := by
  generalize scanned : Registry.scan [shapes, support] = r
  have number : r.aliases.target? "Number" = some (.named "Int") := by rw [← scanned]; rfl
  have string : r.aliases.target? "String" = none := by rw [← scanned]; rfl
  have int : r.aliases.target? "Int" = none := by rw [← scanned]; rfl
  have enums : r.knownEnums support.flatten.enums =
      .ok [⟨"Color", "String"⟩, ⟨"Level", "Int"⟩] := by
    have here : support.flatten.enums = [] := rfl
    have recorded : r.enums.entries = [("Color", "String"), ("Level", "Number")] := by
      rw [← scanned]; rfl
    simp [Registry.knownEnums, here, recorded, Registry.resolveEnum, Aliases.resolve,
      TypeExpr.resolvedName, TypeExpr.named, Aliases.resolveIn_leaf, Aliases.follow_eq, number,
      string, int, Aliases.replace, bind, Except.bind, pure, Except.pure]
  exact ⟨_, SourceFile.generate_eq_ok.mpr ⟨by decide, [], _, [], rfl, enums, rfl, rfl⟩⟩

theorem generation_saturates_shapes :
    ∃ gs, List.Forall₂
        (fun file g => ∃ time,
          file.generate (Registry.scan ([shapes] ++ [support])) time = .ok g)
        ([shapes] ++ [support]) gs ∧
      Reports (report "Generated.swift" gs) gs ∧ shapes ∈ [shapes] ++ [support] ∧
      ∃ g, shapes.generate (Registry.scan ([shapes] ++ report "Generated.swift" gs :: [support]))
          ⟨0, 0⟩ = .ok g ∧
        g.listing.isEmpty ∧ g.listing.warnings = [] := by
  obtain ⟨g, generated, _⟩ := shapes_generate ⟨0, 0⟩
  obtain ⟨g', generated'⟩ := support_generate ⟨0, 0⟩
  have all : List.Forall₂
      (fun (file : SourceFile) g => ∃ time,
        file.generate (Registry.scan ([shapes] ++ [support])) time = .ok g)
      ([shapes] ++ [support]) [g, g'] :=
    .cons ⟨⟨0, 0⟩, generated⟩ (.cons ⟨⟨0, 0⟩, generated'⟩ .nil)
  have reported := reports_report "Generated.swift" [g, g']
  have member : shapes ∈ [shapes] ++ [support] := List.mem_cons_self
  exact ⟨[g, g'], all, reported, member, generation_saturates [shapes] [support]
    (report "Generated.swift" [g, g']) [g, g'] all reported shapes member ⟨0, 0⟩⟩

end SwiftCodec
