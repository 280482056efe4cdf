import SwiftCodec.Output.File
import SwiftCodec.Proofs.Resolution.Steps

/-!
Generation as one row of checks and traversals: the file is validated, the field types of its
structs and the raw types of the known enums are resolved, and each struct gives a block and its
warnings. What a file generates, and the first defect it meets, is read off that row.
-/
namespace SwiftCodec

/-- A block without a codec is not written. -/
def Block.isVoid (b : Block) : Bool := b.decoder.isNone && b.encoder.isNone

namespace Block

/-- What a block adds to a file. -/
def written (b : Block) : List String := if b.isVoid then [] else b.lines

theorem written_eq_nil {b : Block} : b.written = [] ↔ b.isVoid := by
  by_cases void : b.isVoid <;> simp [written, lines, void]

theorem flatMap_lines (bs : List Block) :
    (bs.filter (! ·.isVoid)).flatMap lines = (bs.map written).flatten := by
  induction bs with
  | nil => rfl
  | cons b bs ih => by_cases void : b.isVoid <;> simp [written, void, ih]

end Block

/-- The codecs an enum lacks. -/
def EnumDecl.block (codecs : Codecs) (e : EnumDecl) : Block where
  typeName := e.name
  decoder := if codecs.hasDecoder e.name then none else some e.decoder
  encoder := if codecs.hasEncoder e.name then none else some e.encoder

theorem EnumDecl.made_of_block {codecs : Codecs} {e : EnumDecl} :
    (∀ d ∈ (e.block codecs).decoder, d = e.decoder) ∧
      ∀ d ∈ (e.block codecs).encoder, d = e.encoder := by
  constructor <;> intro d there <;>
    simp only [block, Option.mem_def, Option.ite_none_left_eq_some, Option.some.injEq] at there
  · exact there.2.symm
  · exact there.2.symm

namespace StructDecl

def missingDecoder (codecs : Codecs) (s : StructDecl) : Except Defect (Option Function) :=
  if codecs.hasDecoder s.name then .ok none else s.decoder.map some

def missingEncoder (codecs : Codecs) (known : List EnumDecl) (s : StructDecl) :
    Except Defect (Option Function × List Warning) :=
  if codecs.hasEncoder s.name then .ok (none, [])
  else (s.encoder known).map fun (f, warnings) => (some f, warnings)

/-- The codecs a struct lacks, and the warnings of its encoder. -/
def block (codecs : Codecs) (known : List EnumDecl) (s : StructDecl) :
    Except Defect (Block × List Warning) := do
  let decoder ← s.missingDecoder codecs
  let (encoder, warnings) ← s.missingEncoder codecs known
  .ok (⟨s.name, decoder, encoder⟩, warnings)

variable {codecs : Codecs} {known : List EnumDecl} {s : StructDecl}

theorem missingDecoder_cases {decoder : Option Function}
    (done : s.missingDecoder codecs = .ok decoder) :
    codecs.hasDecoder s.name ∧ decoder = none ∨
      ¬ codecs.hasDecoder s.name ∧ ∃ d, s.decoder = .ok d ∧ decoder = some d := by
  unfold missingDecoder at done
  split at done
  · rename_i there
    cases done
    exact .inl ⟨there, rfl⟩
  · rename_i lacking
    obtain ⟨d, made, rfl⟩ := map_eq_ok.mp done
    exact .inr ⟨lacking, d, made, rfl⟩

theorem missingEncoder_cases {encoder : Option Function} {ws : List Warning}
    (done : s.missingEncoder codecs known = .ok (encoder, ws)) :
    codecs.hasEncoder s.name ∧ encoder = none ∧ ws = [] ∨
      ¬ codecs.hasEncoder s.name ∧ ∃ e, s.encoder known = .ok (e, ws) ∧ encoder = some e := by
  unfold missingEncoder at done
  split at done
  · rename_i there
    cases done
    exact .inl ⟨there, rfl, rfl⟩
  · rename_i lacking
    obtain ⟨⟨e, _⟩, made, h⟩ := map_eq_ok.mp done
    cases h
    exact .inr ⟨lacking, e, made, rfl⟩

theorem block_eq_ok {b : Block} {ws : List Warning} :
    s.block codecs known = .ok (b, ws) ↔
      b.typeName = s.name ∧ s.missingDecoder codecs = .ok b.decoder ∧
        s.missingEncoder codecs known = .ok (b.encoder, ws) := by
  rw [block]
  constructor
  · intro h
    obtain ⟨decoder, hd, h⟩ := bind_eq_ok.mp h
    obtain ⟨⟨encoder, _⟩, he, h⟩ := bind_eq_ok.mp h
    cases h
    exact ⟨rfl, hd, he⟩
  · rintro ⟨named, hd, he⟩
    rw [hd, he, ← named]
    rfl

theorem made_of_block {b : Block} {ws : List Warning}
    (emitted : s.block codecs known = .ok (b, ws)) :
    (∀ d ∈ b.decoder, s.decoder = .ok d) ∧ ∀ e ∈ b.encoder, s.encoder known = .ok (e, ws) := by
  obtain ⟨-, decodes, encodes⟩ := block_eq_ok.mp emitted
  constructor
  · intro d there
    rcases missingDecoder_cases decodes with ⟨-, none⟩ | ⟨-, d', made, some⟩
    · cases none.symm.trans there
    · cases some.symm.trans there
      exact made
  · intro e there
    rcases missingEncoder_cases encodes with ⟨-, none, -⟩ | ⟨-, e', made, some⟩
    · cases none.symm.trans there
    · cases some.symm.trans there
      exact made

/-- Only a codec that has to be made can fail. -/
theorem block_error_cases {d : Defect} (failed : s.block codecs known = .error d) :
    s.decoder = .error d ∨ ¬ codecs.hasEncoder s.name ∧ s.encoder known = .error d := by
  rcases bind_eq_error.mp failed with failed | ⟨_, _, failed⟩
  · unfold missingDecoder at failed
    split at failed
    · cases failed
    · exact .inl (map_eq_error.mp failed)
  · have failed := bind_ok_eq_error.mp failed
    unfold missingEncoder at failed
    split at failed
    · cases failed
    · rename_i lacking
      exact .inr ⟨lacking, map_eq_error.mp failed⟩

end StructDecl

namespace Listing

variable {codecs : Codecs} {known : List EnumDecl}

/-- Adds blocks, other than void ones, and warnings. -/
def add (l : Listing) (blocks : List Block) (warnings : List Warning) : Listing where
  sections := l.sections ++ (blocks.filter (! ·.isVoid)).map .block
  warnings := l.warnings ++ warnings

theorem add_nil (l : Listing) : l.add [] [] = l := by simp [add]

theorem add_add (l : Listing) (bs bs' : List Block) (ws ws' : List Warning) :
    (l.add bs ws).add bs' ws' = l.add (bs ++ bs') (ws ++ ws') := by simp [add]

theorem lines_add (l : Listing) (bs : List Block) (ws : List Warning) :
    (l.add bs ws).lines = l.lines ++ (bs.map Block.written).flatten := by
  simp [lines, add, List.flatMap_map, Section.lines, ← Block.flatMap_lines]

theorem extensions_add (l : Listing) (bs : List Block) (ws : List Warning) :
    (l.add bs ws).extensions = l.extensions + bs.countP (! ·.isVoid) := by
  have each : ((bs.filter (! ·.isVoid)).map Section.block).countP Section.isBlock =
      (bs.filter (! ·.isVoid)).length := by
    rw [List.countP_map, List.countP_eq_length]
    exact fun _ _ => rfl
  rw [extensions, add, List.countP_append, each, ← List.countP_eq_length_filter, extensions]

theorem extend_eq_add (l : Listing) (b : Block) : l.extend b = l.add [b] [] := by
  unfold extend add
  change (if b.isVoid then l else _) = _
  by_cases void : b.isVoid <;> simp [void]

theorem emitEnums_eq_add (enums : List EnumDecl) (l : Listing) :
    enums.foldl (emitEnum codecs) l = l.add (enums.map (·.block codecs)) [] := by
  induction enums generalizing l with
  | nil => exact (add_nil l).symm
  | cons e enums ih =>
    rw [List.foldl_cons, ih, emitEnum, extend_eq_add, add_add]
    rfl

theorem emitStruct_eq_add (l : Listing) (s : StructDecl) :
    l.emitStruct codecs known s = s.block codecs known >>= fun (b, ws) => .ok (l.add [b] ws) := by
  have steps : l.emitStruct codecs known s =
      s.missingDecoder codecs >>= fun decoder =>
        s.missingEncoder codecs known >>= fun (encoder, ws) =>
          .ok ({ l with warnings := l.warnings ++ ws }.extend ⟨s.name, decoder, encoder⟩) := by
    unfold emitStruct StructDecl.missingDecoder StructDecl.missingEncoder
    split_ifs <;> rfl
  rw [steps, StructDecl.block]
  cases s.missingDecoder codecs with
  | error => rfl
  | ok decoder =>
    cases s.missingEncoder codecs known with
    | error => rfl
    | ok encoder => simp [bind, Except.bind, extend_eq_add, add]

/-- What is listed when all has gone well, else the defect. -/
def outcome : Listing × Option Defect → Except Defect Listing
  | (l, none) => .ok l
  | (_, some d) => .error d

theorem outcome_emitStructs (structs : List StructDecl) (l : Listing) :
    outcome (l.emitStructs codecs known structs) =
      structs.mapM (·.block codecs known) >>= fun rows =>
        .ok (l.add (rows.map Prod.fst) (rows.flatMap Prod.snd)) := by
  induction structs generalizing l with
  | nil => exact congrArg Except.ok (add_nil l).symm
  | cons s structs ih =>
    rw [emitStructs, emitStruct_eq_add, List.mapM_cons]
    cases s.block codecs known with
    | error => rfl
    | ok row =>
      simp only [bind, Except.bind, ih]
      cases structs.mapM (·.block codecs known) with
      | error => rfl
      | ok rows => simp [pure, Except.pure, add_add]

theorem outcome_emit (enums : List EnumDecl) (structs : List StructDecl) (l : Listing) :
    outcome (l.emit codecs known enums structs) =
      structs.mapM (·.block codecs known) >>= fun rows =>
        .ok (l.add (enums.map (·.block codecs) ++ rows.map Prod.fst) (rows.flatMap Prod.snd)) := by
  rw [emit, outcome_emitStructs, emitEnums_eq_add]
  simp only [add_add, List.nil_append]

end Listing

namespace SourceFile

/-- The generated file, given the codecs there are and the rows of the structs. -/
def assemble (file : SourceFile) (time : Time) (codecs : Codecs)
    (rows : List (Block × List Warning)) : GeneratedFile where
  filename := outputFilename file.filename
  listing := (Listing.header {} (outputFilename file.filename) time).add
    (file.flatten.enums.map (·.block codecs) ++ rows.map Prod.fst) (rows.flatMap Prod.snd)

theorem lines_assemble (file : SourceFile) (time : Time) (codecs : Codecs)
    (rows : List (Block × List Warning)) :
    (file.assemble time codecs rows).listing.lines =
      Section.headerLines (outputFilename file.filename) time ++
        (file.flatten.enums.map (fun e => (e.block codecs).written) ++
          rows.map fun row => row.1.written).flatten := by
  rw [assemble, Listing.lines_add]
  simp [Listing.lines, Listing.header, Section.lines, Function.comp_def]

/-- A file is generated by validation, two resolutions and one traversal of its structs. -/
theorem generate_eq (file : SourceFile) (r : Registry) (time : Time) :
    file.generate r time = (do
      file.validate
      let structs ← file.flatten.structs.mapM r.resolveStruct
      let known ← r.knownEnums file.flatten.enums
      let rows ← structs.mapM (·.block r.codecs known)
      .ok (file.assemble time r.codecs rows)) := by
  have ended (name : String) : ∀ o : Listing × Option Defect,
      (match o with
        | (listing, none) => Except.ok (GeneratedFile.mk name listing)
        | (_, some d) => .error d) = Listing.outcome o >>= fun l => .ok ⟨name, l⟩
    | (_, none) => rfl
    | (_, some _) => rfl
  unfold generate
  congr 1; funext _
  dsimp only
  congr 1; funext structs
  congr 1; funext known
  refine (ended _ _).trans ?_
  rw [Listing.outcome_emit]
  cases structs.mapM (·.block r.codecs known) <;> rfl

variable {file : SourceFile} {r : Registry} {time : Time}

theorem generate_eq_ok {g : GeneratedFile} :
    file.generate r time = .ok g ↔
      file.validate = .ok () ∧ ∃ structs known rows,
        file.flatten.structs.mapM r.resolveStruct = .ok structs ∧
        r.knownEnums file.flatten.enums = .ok known ∧
        structs.mapM (·.block r.codecs known) = .ok rows ∧
        g = file.assemble time r.codecs rows := by
  rw [generate_eq, check_eq_ok]
  refine and_congr_right fun _ => ?_
  constructor
  · intro h
    obtain ⟨structs, resolved, h⟩ := bind_eq_ok.mp h
    obtain ⟨known, enums, h⟩ := bind_eq_ok.mp h
    obtain ⟨rows, emitted, h⟩ := bind_eq_ok.mp h
    cases h
    exact ⟨structs, known, rows, resolved, enums, emitted, rfl⟩
  · rintro ⟨structs, known, rows, resolved, enums, emitted, rfl⟩
    simp only [resolved, enums, emitted, bind, Except.bind]

theorem filename_of_generate {g : GeneratedFile} (generated : file.generate r time = .ok g) :
    g.filename = outputFilename file.filename := by
  obtain ⟨-, structs, known, rows, -, -, -, rfl⟩ := generate_eq_ok.mp generated
  rfl

/-- Which of the steps has met the defect: all before it have gone well. -/
theorem generate_eq_error {d : Defect} :
    file.generate r time = .error d ↔
      file.validate = .error d ∨ file.validate = .ok () ∧
        (file.flatten.structs.mapM r.resolveStruct = .error d ∨
          ∃ structs, file.flatten.structs.mapM r.resolveStruct = .ok structs ∧
            (r.knownEnums file.flatten.enums = .error d ∨
              ∃ known, r.knownEnums file.flatten.enums = .ok known ∧
                structs.mapM (·.block r.codecs known) = .error d)) := by
  rw [generate_eq, check_eq_error]
  simp only [bind_eq_error, reduceCtorEq, and_false, exists_false, or_false]

end SourceFile

/-- A file in which every type stands differently: one with both codecs, one with an encoder that an
extension inside of another type provides, and two with none. -/
def shapes : SourceFile where
  filename := "Shapes.swift"
  declarations := [
    .struct ⟨"Outer", ["T"],
      [⟨"names", .dictionary (.named "Level") (.named "Id")⟩, ⟨"value", .named "T"⟩],
      [.struct ⟨"Inner", [], [⟨"id", .optional (.named "Id")⟩], []⟩,
        .extension ⟨"Inner", ["encodeJson"]⟩]⟩,
    .enum ⟨"Color", "String"⟩ [],
    .enum ⟨"Level", "Number"⟩ []]

def support : SourceFile where
  filename := "Support.swift"
  declarations := [
    .typeAlias ⟨"Id", .named "String"⟩,
    .typeAlias ⟨"Number", .named "Int"⟩,
    .extension ⟨"Color", ["decodeJson", "encodeJson"]⟩]

theorem shapes_generate (time : Time) :
    ∃ g, shapes.generate (Registry.scan [shapes, support]) time = .ok g ∧
      g.listing.warnings = [⟨"Outer", "names", "Level"⟩] := by
  generalize scanned : Registry.scan [shapes, support] = r
  have id : r.aliases.target? "Id" = some (.named "String") := by rw [← scanned]; rfl
  have number : r.aliases.target? "Number" = some (.named "Int") := by rw [← scanned]; rfl
  have string : r.aliases.target? "String" = none := by rw [← scanned]; rfl
  have int : r.aliases.target? "Int" = none := by rw [← scanned]; rfl
  have level : r.aliases.target? "Level" = none := by rw [← scanned]; rfl
  let structs : List StructDecl := [
    ⟨"Outer", ["T"],
      [⟨"names", .dictionary (.named "Level") ⟨"Id", some "String", []⟩⟩,
        ⟨"value", .named "T"⟩], []⟩,
    ⟨"Outer.Inner", [], [⟨"id", .optional ⟨"Id", some "String", []⟩⟩], []⟩]
  let known : List EnumDecl := [⟨"Color", "String"⟩, ⟨"Level", "Int"⟩]
  have resolved : shapes.flatten.structs.mapM r.resolveStruct = .ok structs := by
    have written : shapes.flatten.structs = [
      ⟨"Outer", ["T"],
        [⟨"names", .dictionary (.named "Level") (.named "Id")⟩, ⟨"value", .named "T"⟩], []⟩,
      ⟨"Outer.Inner", [], [⟨"id", .optional (.named "Id")⟩], []⟩] := rfl
    simp [written, structs, Registry.resolveStruct, TypeExpr.dictionary, TypeExpr.optional,
      TypeExpr.generic, TypeExpr.named, Aliases.resolveIn_leaf, Aliases.resolveIn_cons,
      Aliases.follow_eq, id, string, level, Aliases.replace, bind, Except.bind, pure, Except.pure]
  have enums : r.knownEnums shapes.flatten.enums = .ok known := by
    have here : shapes.flatten.enums = [⟨"Color", "String"⟩, ⟨"Level", "Number"⟩] := rfl
    have recorded : r.enums.entries = [("Color", "String"), ("Level", "Number")] := by
      rw [← scanned]; rfl
    simp [Registry.knownEnums, here, recorded, known, Registry.resolveEnum, Aliases.resolve,
      TypeExpr.resolvedName, TypeExpr.named, Aliases.resolveIn_leaf, Aliases.follow_eq, number,
      string, int, Aliases.replace, bind, Except.bind, pure, Except.pure]
  have emitted : ∃ rows, structs.mapM (·.block r.codecs known) = .ok rows ∧
      rows.flatMap Prod.snd = [⟨"Outer", "names", "Level"⟩] := by
    rw [← scanned]
    exact ⟨_, rfl, rfl⟩
  obtain ⟨rows, emitted, warned⟩ := emitted
  have valid : shapes.validate = .ok () := by decide
  exact ⟨_, SourceFile.generate_eq_ok.mpr
    ⟨valid, structs, known, rows, resolved, enums, emitted, rfl⟩, warned⟩

end SwiftCodec
