import SwiftCodec.Proofs.Codec.Marks
import SwiftCodec.Proofs.Output.Emission
import SwiftCodec.Proofs.Registry.Growth
import SwiftCodec.Proofs.Registry.Resolving

/-!
What is left of a generated file once more codecs exist: each block without the functions that are
there now, no block that has lost all of them, and only the warnings of encoders that stay.
-/
namespace SwiftCodec

variable {codecs codecs' : Codecs}

namespace Block

/-- The block without the functions that exist elsewhere. -/
def without (codecs : Codecs) (b : Block) : Block where
  typeName := b.typeName
  decoder := if codecs.hasDecoder b.typeName then none else b.decoder
  encoder := if codecs.hasEncoder b.typeName then none else b.encoder

theorem isVoid_without {b : Block} (void : b.isVoid) : (b.without codecs).isVoid := by
  obtain ⟨name, decoder?, encoder?⟩ := b
  simp only [isVoid, Bool.and_eq_true, Option.isNone_iff_eq_none] at void
  obtain ⟨rfl, rfl⟩ := void
  simp [without, isVoid]

theorem without_eq_self {b : Block} (decodes : codecs.hasDecoder b.typeName → b.decoder = none)
    (encodes : codecs.hasEncoder b.typeName → b.encoder = none) : b.without codecs = b := by
  obtain ⟨name, decoder?, encoder?⟩ := b
  have decoder : (if codecs.hasDecoder name then none else decoder?) = decoder? := by
    split
    · rename_i there
      exact (decodes there).symm
    · rfl
  have encoder : (if codecs.hasEncoder name then none else encoder?) = encoder? := by
    split
    · rename_i there
      exact (encodes there).symm
    · rfl
  simp only [without, decoder, encoder]

/-- Leaving out a function, or both with the blank line between them, keeps all other lines. -/
theorem lines_without_sublist (codecs : Codecs) (b : Block) :
    (b.without codecs).lines.Sublist b.lines := by
  obtain ⟨name, decoder?, encoder?⟩ := b
  simp only [lines]
  refine List.Sublist.append (List.Sublist.append_left ?_ _) (List.Sublist.refl _)
  dsimp only [without]
  by_cases decodes : codecs.hasDecoder name <;> by_cases encodes : codecs.hasEncoder name <;>
    cases decoder? <;> cases encoder? <;> simp [decodes, encodes]

end Block

namespace Section

/-- What is left of a section. -/
def without? (codecs : Codecs) : Section → Option Section
  | .header filename time => some (.header filename time)
  | .block b => if (b.without codecs).isVoid then none else some (.block (b.without codecs))

theorem lines_without?_sublist (codecs : Codecs) (s : Section) :
    ((s.without? codecs).toList.flatMap lines).Sublist s.lines := by
  cases s with
  | header filename time => simp [without?]
  | block b =>
    rw [without?]
    split
    · exact List.nil_sublist _
    · simpa [lines] using b.lines_without_sublist codecs

theorem countP_without?_le (codecs : Codecs) (s : Section) :
    (s.without? codecs).toList.countP isBlock ≤ [s].countP isBlock := by
  cases s with
  | header filename time => exact Nat.le_refl _
  | block b =>
    rw [without?]
    split <;> simp [isBlock]

end Section

namespace Listing

def without (codecs : Codecs) (l : Listing) : Listing where
  sections := l.sections.filterMap (Section.without? codecs)
  warnings := l.warnings.filter (! codecs.hasEncoder ·.typeName)

theorem filterMap_without? (codecs : Codecs) (bs : List Block) :
    ((bs.filter (! ·.isVoid)).map Section.block).filterMap (Section.without? codecs) =
      ((bs.map (·.without codecs)).filter (! ·.isVoid)).map Section.block := by
  induction bs with
  | nil => rfl
  | cons b bs ih =>
    by_cases void : b.isVoid
    · have voidAfter : (b.without codecs).isVoid := Block.isVoid_without void
      simpa [void, voidAfter] using ih
    · by_cases voidAfter : (b.without codecs).isVoid <;>
        simpa [void, voidAfter, Section.without?] using ih

theorem without_add (codecs : Codecs) (l : Listing) (bs : List Block) (ws : List Warning) :
    (l.add bs ws).without codecs = (l.without codecs).add (bs.map (·.without codecs))
      (ws.filter (! codecs.hasEncoder ·.typeName)) := by
  simp only [without, add, List.filterMap_append, List.filter_append, filterMap_without?]

theorem lines_without_sublist (codecs : Codecs) (l : Listing) :
    (l.without codecs).lines.Sublist l.lines := by
  obtain ⟨sections, warnings⟩ := l
  simp only [without, lines]
  induction sections with
  | nil => exact List.Sublist.refl _
  | cons s sections ih =>
    have head := s.lines_without?_sublist codecs
    cases left : s.without? codecs with
    | none =>
      rw [List.filterMap_cons_none left, List.flatMap_cons]
      exact ih.trans (List.sublist_append_right _ _)
    | some s' =>
      rw [left] at head
      rw [List.filterMap_cons_some left, List.flatMap_cons, List.flatMap_cons]
      exact List.Sublist.append (by simpa using head) ih

theorem extensions_without_le (codecs : Codecs) (l : Listing) :
    (l.without codecs).extensions ≤ l.extensions := by
  obtain ⟨sections, warnings⟩ := l
  simp only [without, extensions]
  induction sections with
  | nil => exact Nat.le_refl _
  | cons s sections ih =>
    have head := s.countP_without?_le codecs
    cases left : s.without? codecs with
    | none =>
      rw [List.filterMap_cons_none left, List.countP_cons]
      omega
    | some s' =>
      rw [left] at head
      rw [List.filterMap_cons_some left, List.countP_cons, List.countP_cons]
      simp only [Option.toList_some, List.countP_singleton] at head
      omega

end Listing

theorem EnumDecl.block_without (within : codecs.Within codecs') (e : EnumDecl) :
    (e.block codecs).without codecs' = e.block codecs' := by
  have decodes := within.decoders e.name
  have encodes := within.encoders e.name
  unfold block Block.without
  dsimp only
  congr 1
  · by_cases there : codecs'.hasDecoder e.name
    · simp [there]
    · simp [there, mt decodes there]
  · by_cases there : codecs'.hasEncoder e.name
    · simp [there]
    · simp [there, mt encodes there]

namespace StructDecl

variable {known : List EnumDecl} {s : StructDecl}

theorem typeName_of_encoder {e : Function} {ws : List Warning}
    (made : s.encoder known = .ok (e, ws)) : ∀ w ∈ ws, w.typeName = s.name := by
  obtain ⟨marks, _, _, rfl⟩ := encoder_eq_ok.mp made
  intro w member
  obtain ⟨⟨f, key?⟩, _, marked⟩ := List.mem_filterMap.mp member
  obtain ⟨key, _, rfl⟩ := Option.map_eq_some_iff.mp marked
  rfl

theorem missingDecoder_within (within : codecs.Within codecs') {d? : Option Function}
    (done : s.missingDecoder codecs = .ok d?) :
    s.missingDecoder codecs' = .ok (if codecs'.hasDecoder s.name then none else d?) := by
  by_cases there : codecs'.hasDecoder s.name
  · simp [missingDecoder, there]
  · rcases missingDecoder_cases done with ⟨before, _⟩ | ⟨_, d, made, rfl⟩
    · exact absurd (within.decoders s.name before) there
    · simp [missingDecoder, there, made, Except.map]

theorem missingEncoder_within (within : codecs.Within codecs') {e? : Option Function}
    {ws : List Warning} (done : s.missingEncoder codecs known = .ok (e?, ws)) :
    s.missingEncoder codecs' known =
      .ok (if codecs'.hasEncoder s.name then none else e?,
        ws.filter (! codecs'.hasEncoder ·.typeName)) := by
  have named : ∀ w ∈ ws, w.typeName = s.name := by
    rcases missingEncoder_cases done with ⟨_, _, rfl⟩ | ⟨_, e, made, _⟩
    · exact List.forall_mem_nil _
    · exact typeName_of_encoder made
  by_cases there : codecs'.hasEncoder s.name
  · have gone : ws.filter (! codecs'.hasEncoder ·.typeName) = [] := by
      refine List.filter_eq_nil_iff.mpr fun w member => ?_
      simp [named w member, there]
    simp [missingEncoder, there, gone]
  · have kept : ws.filter (! codecs'.hasEncoder ·.typeName) = ws := by
      refine List.filter_eq_self.mpr fun w member => ?_
      simp [named w member, there]
    rcases missingEncoder_cases done with ⟨before, _⟩ | ⟨_, e, made, rfl⟩
    · exact absurd (within.encoders s.name before) there
    · simp [missingEncoder, there, made, kept, Except.map]

theorem block_within (within : codecs.Within codecs') {b : Block} {ws : List Warning}
    (emitted : s.block codecs known = .ok (b, ws)) :
    s.block codecs' known =
      .ok (b.without codecs', ws.filter (! codecs'.hasEncoder ·.typeName)) := by
  obtain ⟨named, decodes, encodes⟩ := block_eq_ok.mp emitted
  refine block_eq_ok.mpr ⟨named, ?_, ?_⟩
  · rw [missingDecoder_within within decodes, Block.without, named]
  · rw [missingEncoder_within within encodes, Block.without, named]

end StructDecl

namespace SourceFile

variable {file : SourceFile} {r : Registry} {time : Time}

theorem assemble_without (within : codecs.Within codecs') (file : SourceFile) (time : Time)
    (rows : List (Block × List Warning)) :
    (file.assemble time codecs rows).listing.without codecs' =
      (file.assemble time codecs' (rows.map fun row =>
        (row.1.without codecs', row.2.filter (! codecs'.hasEncoder ·.typeName)))).listing := by
  have enums : (file.flatten.enums.map (·.block codecs)).map (·.without codecs') =
      file.flatten.enums.map (·.block codecs') := by
    rw [List.map_map]
    exact List.map_congr_left fun e _ => e.block_without within
  simp only [assemble, Listing.without_add, List.map_append, enums, List.map_map, List.flatMap_map,
    List.filter_flatMap]
  rfl

/-- More codecs do not stop a file from being generated, and what is left of it is known. -/
theorem generate_within (within : r.codecs.Within codecs') {g : GeneratedFile}
    (generated : file.generate r time = .ok g) :
    file.generate { r with codecs := codecs' } time =
      .ok ⟨g.filename, g.listing.without codecs'⟩ := by
  obtain ⟨valid, structs, known, rows, resolved, enums, emitted, rfl⟩ := generate_eq_ok.mp generated
  refine generate_eq_ok.mpr ⟨valid, structs, known, _, resolved, enums, ?_,
    congrArg (GeneratedFile.mk _) (assemble_without within file time rows)⟩
  refine mapM_eq_ok.mpr (List.forall₂_map_right_iff.mpr ?_)
  exact (mapM_eq_ok.mp emitted).imp fun s row h => StructDecl.block_within within h

theorem mem_sections_assemble {b : Block} {rows : List (Block × List Warning)} :
    .block b ∈ (file.assemble time codecs rows).listing.sections ↔
      b ∈ file.flatten.enums.map (·.block codecs) ++ rows.map Prod.fst ∧ ¬ b.isVoid := by
  simp only [assemble, Listing.add, Listing.header, List.nil_append, List.mem_append,
    List.mem_singleton, reduceCtorEq, false_or]
  constructor
  · intro member
    obtain ⟨_, kept, same⟩ := List.mem_map.mp member
    cases same
    have parts := List.mem_filter.mp kept
    exact ⟨List.mem_append.mp parts.1, by simpa using parts.2⟩
  · rintro ⟨member, written⟩
    refine List.mem_map_of_mem (List.mem_filter.mpr ⟨List.mem_append.mpr member, ?_⟩)
    simpa using written

/-- A block is that of an enum, or that of a struct whose field types have been resolved. -/
theorem block_cases {b : Block} {g : GeneratedFile} (generated : file.generate r time = .ok g)
    (member : .block b ∈ g.listing.sections) :
    (∃ e ∈ file.flatten.enums, b = e.block r.codecs) ∨
      ∃ s ∈ file.flatten.structs, ∃ s' known ws,
        r.Resolves s s' ∧ s'.block r.codecs known = .ok (b, ws) := by
  obtain ⟨_, structs, known, rows, resolved, _, emitted, rfl⟩ := generate_eq_ok.mp generated
  rcases List.mem_append.mp (mem_sections_assemble.mp member).1 with isEnum | isStruct
  · obtain ⟨e, declared, rfl⟩ := List.mem_map.mp isEnum
    exact .inl ⟨e, declared, rfl⟩
  · obtain ⟨⟨_, ws⟩, row, rfl⟩ := List.mem_map.mp isStruct
    obtain ⟨s', struct, made⟩ := exists_of_forall₂ (mapM_eq_ok.mp emitted).flip row
    obtain ⟨s, declared, resolves⟩ :=
      exists_of_forall₂ (Registry.resolves_structs resolved).flip struct
    exact .inr ⟨s, declared, s', known, ws, resolves, made⟩

/-- A block holds no function that exists elsewhere. -/
theorem functions_of_block {b : Block} {g : GeneratedFile}
    (generated : file.generate r time = .ok g) (member : .block b ∈ g.listing.sections) :
    (r.codecs.hasDecoder b.typeName → b.decoder = none) ∧
      (r.codecs.hasEncoder b.typeName → b.encoder = none) := by
  rcases block_cases generated member with ⟨e, -, rfl⟩ | ⟨-, -, s, known, ws, -, made⟩
  · exact ⟨fun there => if_pos there, fun there => if_pos there⟩
  · obtain ⟨named, decodes, encodes⟩ := StructDecl.block_eq_ok.mp made
    constructor
    · intro there
      rcases StructDecl.missingDecoder_cases decodes with ⟨_, none⟩ | ⟨lacking, _⟩
      · exact none
      · exact absurd (named ▸ there) lacking
    · intro there
      rcases StructDecl.missingEncoder_cases encodes with ⟨_, none, _⟩ | ⟨lacking, _⟩
      · exact none
      · exact absurd (named ▸ there) lacking

end SourceFile

/-- How what is generated with more codecs comes from what is generated with fewer. -/
structure Reduced (codecs codecs' : Codecs) (l l' : Listing) : Prop where
  sections : l'.sections = l.sections.filterMap (Section.without? codecs')
  unchanged : ∀ b, .block b ∈ l.sections →
    codecs.hasDecoder b.typeName = codecs'.hasDecoder b.typeName →
    codecs.hasEncoder b.typeName = codecs'.hasEncoder b.typeName →
      Section.without? codecs' (.block b) = some (.block b)
  lines : l'.lines.Sublist l.lines
  warnings : l'.warnings.Sublist l.warnings
  extensions : l'.extensions ≤ l.extensions

theorem reduced_without {file : SourceFile} {r : Registry} {time : Time} {g : GeneratedFile}
    (generated : file.generate r time = .ok g) (codecs' : Codecs) :
    Reduced r.codecs codecs' g.listing (g.listing.without codecs') where
  sections := rfl
  unchanged b member decoders encoders := by
    obtain ⟨decodes, encodes⟩ := SourceFile.functions_of_block generated member
    rw [decoders] at decodes
    rw [encoders] at encodes
    have same : b.without codecs' = b := Block.without_eq_self decodes encodes
    obtain ⟨_, _, _, rows, _, _, _, rfl⟩ := SourceFile.generate_eq_ok.mp generated
    have written := (SourceFile.mem_sections_assemble.mp member).2
    simp [Section.without?, same, written]
  lines := g.listing.lines_without_sublist codecs'
  warnings := List.filter_sublist
  extensions := g.listing.extensions_without_le codecs'

/-- With more codecs, and the same aliases and enums, a file is still generated, and all that is
gone from it are the functions that exist now. -/
theorem generation_monotone (file : SourceFile) (r r' : Registry) (time : Time)
    (aliases : r'.aliases = r.aliases) (enums : r'.enums = r.enums)
    (within : r.codecs.Within r'.codecs) (g : GeneratedFile)
    (generated : file.generate r time = .ok g) :
    ∃ g', file.generate r' time = .ok g' ∧ g'.filename = g.filename ∧
      Reduced r.codecs r'.codecs g.listing g'.listing := by
  have same : r' = { r with codecs := r'.codecs } := by
    rw [← aliases, ← enums]
  refine ⟨⟨g.filename, g.listing.without r'.codecs⟩, ?_, rfl, reduced_without generated r'.codecs⟩
  rw [same]
  exact SourceFile.generate_within within generated

/-- A file by which one of the types has come to have an encoder. -/
def handwritten : SourceFile where
  filename := "Outer+Json.swift"
  declarations := [.extension ⟨"Outer", ["encodeJson"]⟩]

theorem generation_monotone_shapes :
    ∃ g g', shapes.generate (Registry.scan [shapes, support]) ⟨0, 0⟩ = .ok g ∧
      g.listing.warnings = [⟨"Outer", "names", "Level"⟩] ∧
      shapes.generate (Registry.scan [shapes, support, handwritten]) ⟨0, 0⟩ = .ok g' ∧
      g'.filename = g.filename ∧
      Reduced (Registry.scan [shapes, support]).codecs
        (Registry.scan [shapes, support, handwritten]).codecs g.listing g'.listing := by
  obtain ⟨g, generated, warned⟩ := shapes_generate ⟨0, 0⟩
  have within : (Registry.scan [shapes, support]).codecs.Within
      (Registry.scan [shapes, support, handwritten]).codecs :=
    Registry.within_scan (List.subset_append_left [shapes, support] _)
  obtain ⟨g', generated', reduced⟩ := generation_monotone shapes (Registry.scan [shapes, support])
    (Registry.scan [shapes, support, handwritten]) ⟨0, 0⟩ rfl rfl within g generated
  exact ⟨g, g', generated, warned, generated', reduced⟩

end SwiftCodec
