import SwiftCodec.Proofs.Output.Emission
import SwiftCodec.Proofs.Output.Judgement
import SwiftCodec.Proofs.Resolution.Lookup

/-!
What the generation of a file reads of a registry: the codecs, the enums, and of the aliases those
that it comes to from the types of its fields and from the raw types of enums. An alias under the
name of a marker is never one of them, so a file that declares such aliases has no part in what is
generated from others.
-/
namespace SwiftCodec

namespace SourceFile

variable {file : SourceFile} {r r' : Registry}

/-- The enums of all files are resolved for each of them, so their raw types count as well. -/
theorem generate_congr (codecs : r.codecs = r'.codecs) (enums : r.enums = r'.enums)
    (fields : ∀ p ∈ file.fields, ∀ name, r.aliases.Consulted p.1.parameters p.2.type name →
      r.aliases.target? name = r'.aliases.target? name)
    (raws : ∀ e ∈ r.candidates file.flatten.enums, ∀ name,
      r.aliases.Consulted [] (.named e.rawType) name →
        r.aliases.target? name = r'.aliases.target? name)
    (time : Time) : file.generate r time = file.generate r' time := by
  have structs : file.flatten.structs.mapM r.resolveStruct =
      file.flatten.structs.mapM r'.resolveStruct :=
    mapM_congr fun s struct => Registry.resolveStruct_congr fun f field =>
      fields (s, f) (mem_fields struct field)
  have candidates : r'.candidates file.flatten.enums = r.candidates file.flatten.enums := by
    rw [Registry.candidates, Registry.candidates, enums]
  have known : r.knownEnums file.flatten.enums = r'.knownEnums file.flatten.enums := by
    rw [Registry.knownEnums_eq, Registry.knownEnums_eq, candidates]
    exact mapM_congr fun e candidate => Registry.resolveEnum_congr (raws e candidate)
  rw [generate_eq, generate_eq, structs, known, codecs]

end SourceFile

/-- An inventory without its type aliases under names of markers. -/
def Inventory.unmarked (i : Inventory) : Inventory :=
  { i with aliases := i.aliases.filter fun a => (Marker.named? a.name).isNone }

namespace Registry

variable {files files' : List SourceFile}

theorem find?_unmarked {name : String} (unmarked : Marker.named? name = none)
    (aliases : List AliasDecl) :
    (aliases.filter fun a => (Marker.named? a.name).isNone).reverse.find? (·.name = name) =
      aliases.reverse.find? (·.name = name) := by
  rw [← List.filter_reverse, List.find?_filter]
  congr 1
  funext a
  by_cases named : a.name = name
  · simp [named, unmarked]
  · simp [named]

theorem find?_aliases_unmarked {name : String} (unmarked : Marker.named? name = none)
    (files : List SourceFile) :
    (scan files).aliases.find? name =
      (((files.map (·.flatten.unmarked)).flatMap (·.aliases)).reverse.find?
        (·.name = name)).map (·.target) := by
  rw [find?_aliases_scan, ← find?_unmarked unmarked, List.filter_flatMap, List.flatMap_map]
  rfl

/-- A registry holds nothing of the aliases under names of markers that is ever looked up. -/
theorem scan_unmarked (same : files.map (·.flatten.unmarked) = files'.map (·.flatten.unmarked)) :
    (scan files).codecs = (scan files').codecs ∧ (scan files).enums = (scan files').enums ∧
      ∀ name, (scan files).aliases.target? name = (scan files').aliases.target? name := by
  have extensions := congrArg (List.flatMap (·.extensions)) same
  have enums := congrArg (List.flatMap (·.enums)) same
  simp only [List.flatMap_map, Inventory.unmarked] at extensions enums
  refine ⟨?_, ?_, fun name => ?_⟩
  · simp only [scan, foldl_observe, extensions]
  · simp only [scan, foldl_observe, enums]
  · refine Aliases.target?_congr fun unmarked => ?_
    rw [find?_aliases_unmarked unmarked, find?_aliases_unmarked unmarked, same]

end Registry

/-- Resolution of a type comes out alike under alias maps that agree on the names it consults, those
of markers left out. In particular, files may add, drop or change aliases under names of markers:
whether or not they stay valid, each other file is generated as before. -/
theorem resolution_is_local :
    (∀ (m m' : Aliases) (params chain : List String) (t : TypeExpr),
      (∀ name, m.Consulted params t name → Marker.named? name = none →
        m.find? name = m'.find? name) →
      m.resolveIn params chain t = m'.resolveIn params chain t) ∧
    ∀ files files' : List SourceFile,
      files.map (·.flatten.unmarked) = files'.map (·.flatten.unmarked) →
      ∀ (file : SourceFile) (time : Time),
        file.generate (Registry.scan files) time = file.generate (Registry.scan files') time := by
  refine ⟨fun m m' params chain t same => ?_, fun files files' same file time => ?_⟩
  · exact Aliases.resolveIn_congr fun name consulted =>
      Aliases.target?_congr (same name consulted)
  · obtain ⟨codecs, enums, aliases⟩ := Registry.scan_unmarked same
    exact SourceFile.generate_congr codecs enums (fun _ _ name _ => aliases name)
      (fun _ _ name _ => aliases name) time

/-- The maps differ in an alias that a type argument shadows, in one under the name of a marker and
in one that nothing leads to. -/
theorem resolution_is_local_ids :
    let m : Aliases := ⟨[("Ids", .array (.named "Id")), ("Id", .named "String"),
      ("T", .named "Int"), ("JsonObject", .dictionary (.named "String") (.named "Ids"))]⟩
    let m' : Aliases := ⟨[("Other", .named "Other"), ("Id", .named "String"),
      ("Ids", .array (.named "Id"))]⟩
    let t : TypeExpr :=
      .generic "Box" [.optional (.named "Ids"), .named "T", .named "JsonObject"]
    let marked : SourceFile := { support with
      declarations := .typeAlias ⟨"AnyJson", .named "Id"⟩ :: support.declarations }
    (∀ name, m.Consulted ["T"] t name → Marker.named? name = none →
      m.find? name = m'.find? name) ∧
    m.resolveIn ["T"] [] t = m'.resolveIn ["T"] [] t ∧
    [shapes, support].map (·.flatten.unmarked) = [shapes, marked].map (·.flatten.unmarked) ∧
    shapes.generate (Registry.scan [shapes, support]) ⟨0, 0⟩ =
      shapes.generate (Registry.scan [shapes, marked]) ⟨0, 0⟩ := by
  intro m m' t marked
  obtain ⟨resolution, generation⟩ := resolution_is_local
  let names := ["Ids", "Id", "String", "JsonObject"]
  have closed : ∀ name ∈ names, ∀ u ∈ m.target? name, ∀ next ∈ u.leaves, next ∈ names := by decide
  have agree : ∀ name ∈ names, Marker.named? name = none → m.find? name = m'.find? name := by decide
  have same : ∀ name, m.Consulted ["T"] t name → Marker.named? name = none →
      m.find? name = m'.find? name := fun name consulted =>
    agree name (consulted.inside (S := (· ∈ names)) (fun name u member => closed name member u)
      (by decide))
  have declared : [shapes, support].map (·.flatten.unmarked) =
      [shapes, marked].map (·.flatten.unmarked) := by decide
  exact ⟨same, resolution m m' ["T"] [] t same, declared,
    generation [shapes, support] [shapes, marked] declared shapes ⟨0, 0⟩⟩

end SwiftCodec
