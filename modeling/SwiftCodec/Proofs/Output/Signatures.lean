import SwiftCodec.Output.Support
import SwiftCodec.Proofs.Codec.Calls
import SwiftCodec.Proofs.Output.Containment
import SwiftCodec.Proofs.Output.Saturation
import SwiftCodec.Proofs.Resolution.Origin

/-!
Calls and the functions that they call. The arguments of a call follow a type as it has been
resolved; the parameters of a function follow the declaration of a type, which may be in another
file, or stand in the support file. Both come to the same number if types are used with the
arguments that they are declared with, since resolution keeps the arguments of every use.
-/
namespace SwiftCodec

/-! ## Uses and declarations -/

/-- A type as a file has it, in the scope of type arguments. -/
structure Use where
  scope : List String
  type : TypeExpr

/-- All types in files: those in fields, and those in the targets of aliases, which are in the scope
of no struct. -/
def uses (files : List SourceFile) : List Use :=
  files.flatMap fun file =>
    (file.flatten.structs.flatMap fun s =>
        s.fields.flatMap fun f => f.type.nodes.map (⟨s.parameters, ·⟩)) ++
      file.flatten.aliases.flatMap fun a => a.target.nodes.map (⟨[], ·⟩)

/-- The types that files declare, with the number of their type arguments; enums have none. -/
def arities (files : List SourceFile) : List (String × Nat) :=
  files.flatMap fun file =>
    file.flatten.structs.map (fun s => (s.name, s.parameters.length)) ++
      file.flatten.enums.map fun e => (e.name, 0)

/-- Types are used with as many arguments as they are declared with. A name that stands for a type
argument or for an alias is no use of the type that is declared under it. -/
structure WellApplied (files : List SourceFile) : Prop where
  written : ∀ u ∈ uses files, u.type.target = none
  declared : ∀ u ∈ uses files, u.type.base ∉ u.scope →
    (Registry.scan files).aliases.Direct u.scope u.type →
      ∀ d ∈ arities files, d.1 = u.type.base → u.type.args.length = d.2
  parameters : ∀ u ∈ uses files, ∀ file ∈ files, ∀ s ∈ file.flatten.structs,
    u.type.base ∈ s.parameters → u.type.args = []

instance (m : Aliases) (scope : List String) (w : TypeExpr) : Decidable (m.Direct scope w) :=
  inferInstanceAs (Decidable (_ → _))

instance (files : List SourceFile) : Decidable (WellApplied files) :=
  decidable_of_iff
    ((∀ u ∈ uses files, u.type.target = none) ∧
      (∀ u ∈ uses files, u.type.base ∉ u.scope →
        (Registry.scan files).aliases.Direct u.scope u.type →
          ∀ d ∈ arities files, d.1 = u.type.base → u.type.args.length = d.2) ∧
      ∀ u ∈ uses files, ∀ file ∈ files, ∀ s ∈ file.flatten.structs,
        u.type.base ∈ s.parameters → u.type.args = [])
    ⟨fun ⟨h, h', h''⟩ => ⟨h, h', h''⟩, fun ⟨h, h', h''⟩ => ⟨h, h', h''⟩⟩

/-- What a function takes besides a function for each type argument. -/
def inputs (function : String) : Nat := if function = decodeName then 1 else 0

@[simp] theorem inputs_decodeName : inputs decodeName = 1 := by decide
@[simp] theorem inputs_encodeName : inputs encodeName = 0 := by decide

namespace Support

/-- The types of which the support file has codecs that take others. -/
def arities : List (String × Nat) := [("Optional", 1), ("Array", 1), ("Dictionary", 2)]

/-- The lines of an extension, without the one that closes it. -/
def extension (type : String) : List String :=
  (lines.dropWhile (· ≠ "extension " ++ type ++ " \x7b")).takeWhile (· ≠ "\x7d")

/-- The parameters that functions of a name have in an extension. -/
def declared (type function : String) : List (List String) :=
  (((extension type).flatMap Call.inText).filter (·.callee = function)).map (·.arguments)

theorem declared_containers :
    ∀ a ∈ arities, ∀ function ∈ [decodeName, encodeName],
      (declared a.1 function).map List.length = [a.2 + inputs function] := by
  have optional : "extension " ++ "Optional" ++ " \x7b" = "extension Optional \x7b" := by decide
  have array : "extension " ++ "Array" ++ " \x7b" = "extension Array \x7b" := by decide
  have dictionary : "extension " ++ "Dictionary" ++ " \x7b" = "extension Dictionary \x7b" := by
    decide
  simp only [arities, List.forall_mem_cons, declared, extension, optional, array, dictionary, lines,
    List.dropWhile_cons, List.takeWhile_cons, ne_eq, String.reduceEq, not_true_eq_false,
    not_false_eq_true, decide_true, decide_false, Bool.false_eq_true, if_true, if_false,
    List.flatMap_cons, List.flatMap_nil, Call.inText]
  -- Decoding a literal is slow; it is given by its characters instead.
  repeat rw [String.toList_ofList]
  decide +kernel

end Support

variable {files : List SourceFile} {file : SourceFile}

theorem mem_uses_of_field (member : file ∈ files) {s : StructDecl}
    (struct : s ∈ file.flatten.structs) {f : Field} (field : f ∈ s.fields) {w : TypeExpr}
    (node : w ∈ f.type.nodes) :
    ⟨s.parameters, w⟩ ∈ uses files :=
  List.mem_flatMap.mpr ⟨file, member, List.mem_append_left _ (List.mem_flatMap.mpr
    ⟨s, struct, List.mem_flatMap.mpr ⟨f, field, List.mem_map_of_mem node⟩⟩)⟩

theorem mem_uses_of_alias (member : file ∈ files) {a : AliasDecl}
    (declared : a ∈ file.flatten.aliases) {w : TypeExpr} (node : w ∈ a.target.nodes) :
    ⟨[], w⟩ ∈ uses files :=
  List.mem_flatMap.mpr ⟨file, member, List.mem_append_right _
    (List.mem_flatMap.mpr ⟨a, declared, List.mem_map_of_mem node⟩)⟩

theorem mem_uses_of_target {name : String} {t w : TypeExpr}
    (known : (Registry.scan files).aliases.target? name = some t) (node : w ∈ t.nodes) :
    ⟨[], w⟩ ∈ uses files := by
  obtain ⟨file, member, a, declared, -, rfl⟩ :=
    Registry.exists_alias_of_find? (Aliases.find?_of_target? known)
  exact mem_uses_of_alias member declared node

theorem shaped_of_use (valid : ∀ file ∈ files, file.validate = .ok ()) {u : Use}
    (used : u ∈ uses files) : ∃ shape, u.type.shape = .ok shape := by
  obtain ⟨file, member, inside⟩ := List.mem_flatMap.mp used
  rcases List.mem_append.mp inside with inside | inside
  · obtain ⟨s, struct, inside⟩ := List.mem_flatMap.mp inside
    obtain ⟨f, field, inside⟩ := List.mem_flatMap.mp inside
    obtain ⟨w, node, rfl⟩ := List.mem_map.mp inside
    exact (TypeExpr.validate_iff_nodes.mp (valid_field (valid file member) struct field) w node).2
  · obtain ⟨a, declared, inside⟩ := List.mem_flatMap.mp inside
    obtain ⟨w, node, rfl⟩ := List.mem_map.mp inside
    have checked := (Inventory.validate_eq_ok.mp (valid file member)).2.2.2 a declared
    exact (TypeExpr.validate_iff_nodes.mp (Inventory.validateAlias_eq_ok.mp checked).2 w node).2

/-- A type inside the type of a field that has been resolved, in the scope of its struct. -/
inductive Coded (files : List SourceFile) (file : SourceFile) (type : String) :
    List String → TypeExpr → Prop where
  | node {s : StructDecl} {f : Field} {u n : TypeExpr} (struct : s ∈ file.flatten.structs)
      (named : s.name = type) (field : f ∈ s.fields)
      (resolved : (Registry.scan files).aliases.resolveIn s.parameters [] f.type = .ok u)
      (inside : n ∈ u.nodes) : Coded files file type s.parameters n

/-- What is coded stems from a use of the type of that name, with as many arguments. -/
structure StemsFrom (files : List SourceFile) (params : List String) (n : TypeExpr) (u : Use) :
    Prop where
  used : u ∈ uses files
  direct : (Registry.scan files).aliases.Direct u.scope u.type
  within : ∀ p ∈ u.scope, p ∈ params
  name : u.type.base = n.resolvedName
  arguments : u.type.args.length = n.args.length

namespace WellApplied

variable {type : String} {params : List String} {n : TypeExpr}

theorem written_field (applied : WellApplied files) (member : file ∈ files) {s : StructDecl}
    (struct : s ∈ file.flatten.structs) {f : Field} (field : f ∈ s.fields) : f.type.Written :=
  fun _ node => applied.written _ (mem_uses_of_field member struct field node)

theorem written_target (applied : WellApplied files) {name : String} {t : TypeExpr}
    (known : (Registry.scan files).aliases.target? name = some t) : t.Written :=
  fun _ node => applied.written _ (mem_uses_of_target known node)

theorem exists_use (applied : WellApplied files) (member : file ∈ files)
    (coded : Coded files file type params n) : ∃ u, StemsFrom files params n u := by
  obtain ⟨struct, -, field, resolved, inside⟩ := coded
  obtain ⟨scope, w, stems⟩ := Aliases.exists_origin (fun name t => applied.written_target)
    (applied.written_field member struct field) resolved n inside
  obtain ⟨written, direct, name, arguments⟩ := stems
  cases written with
  | here node =>
    exact ⟨_, mem_uses_of_field member struct field node, direct, fun _ => id, name, arguments⟩
  | target known node =>
    exact ⟨_, mem_uses_of_target known node, direct, List.forall_mem_nil _, name, arguments⟩

/-- A type argument is coded without arguments. -/
theorem bare (applied : WellApplied files) (member : file ∈ files) {s : StructDecl}
    (struct : s ∈ file.flatten.structs) (coded : Coded files file type s.parameters n)
    (own : n.resolvedName ∈ s.parameters) : n.args = [] := by
  obtain ⟨u, stems⟩ := applied.exists_use member coded
  have none := applied.parameters u stems.used file member s struct (stems.name ▸ own)
  rw [← List.length_eq_zero_iff, ← stems.arguments, none, List.length_nil]

/-- Any other type is coded with as many arguments as it is declared with. -/
theorem arguments (applied : WellApplied files) (member : file ∈ files)
    (coded : Coded files file type params n) (foreign : n.resolvedName ∉ params) :
    ∀ d ∈ arities files, d.1 = n.resolvedName → n.args.length = d.2 := by
  intro d declared named
  obtain ⟨u, stems⟩ := applied.exists_use member coded
  have exposed : u.type.base ∉ u.scope := fun inside => foreign (stems.name ▸ stems.within _ inside)
  rw [← stems.arguments]
  exact applied.declared u stems.used exposed stems.direct d declared (named.trans stems.name.symm)

theorem container_arguments (applied : WellApplied files)
    (valid : ∀ file ∈ files, file.validate = .ok ()) (member : file ∈ files)
    (coded : Coded files file type params n) :
    ∀ d ∈ Support.arities, d.1 = n.resolvedName → n.args.length = d.2 := by
  intro d container named
  obtain ⟨u, stems⟩ := applied.exists_use member coded
  have shaped := TypeExpr.shaped_iff.mp (shaped_of_use valid stems.used)
  rw [stems.name, ← named, stems.arguments] at shaped
  simp only [Support.arities, List.mem_cons, List.not_mem_nil, or_false] at container
  rcases container with rfl | rfl | rfl
  · exact shaped.1 (.inl rfl)
  · exact shaped.1 (.inr rfl)
  · exact shaped.2 rfl

theorem path_of_occurs (applied : WellApplied files)
    (valid : ∀ file ∈ files, file.validate = .ok ()) (member : file ∈ files) {name : String}
    (occurs : Occurs files file name) : Within (Call.isPath ·) name := by
  rcases occurs with named | recorded
  · exact StructDecl.WellNamed.path_of_isDotted (dotted_of_named valid member named)
  · cases recorded with
    | used struct field node recorded =>
      cases (applied.written _ (mem_uses_of_field member struct field node)).symm.trans recorded
    | target other declared node recorded =>
      cases (applied.written _ (mem_uses_of_alias other declared node)).symm.trans recorded

end WellApplied

/-! ## Declared parameters -/

def Block.function? (b : Block) (name : String) : Option Function :=
  if name = decodeName then b.decoder else if name = encodeName then b.encoder else none

/-- The parameters that a function of a codec is declared with: in what is generated for one of the
files, at whatever time, or in the support file. -/
inductive Declares (files : List SourceFile) (type function : String) : List String → Prop where
  | generated {file : SourceFile} {time : Time} {g : GeneratedFile} {b : Block} {f : Function}
      (member : file ∈ files) (generated : file.generate (Registry.scan files) time = .ok g)
      (block : b ∈ g.blocks) (named : b.typeName = type) (made : f ∈ b.function? function) :
      Declares files type function f.declared
  | support {parameters : List String} (container : type ∈ Support.arities.map Prod.fst)
      (declared : parameters ∈ Support.declared type function) :
      Declares files type function parameters

theorem Block.forall_functions {b : Block} {P : String → Function → Prop}
    (decoder : ∀ f ∈ b.decoder, P decodeName f) (encoder : ∀ f ∈ b.encoder, P encodeName f) :
    ∀ function, ∀ f ∈ b.function? function, P function f := by
  intro function f made
  unfold function? at made
  split_ifs at made with decodes encodes
  · exact decodes ▸ decoder f made
  · exact encodes ▸ encoder f made
  · cases made

theorem EnumDecl.length_declared {e : EnumDecl} (name : Within (Call.isPath ·) e.name)
    (raw : Within (Call.isPath ·) e.rawType) (codecs : Codecs) :
    ∀ function, ∀ f ∈ (e.block codecs).function? function, f.declared.length = inputs function := by
  apply Block.forall_functions
  · intro f made
    rw [made_of_block.1 f made, declared_decoder name]
    rfl
  · intro f made
    rw [made_of_block.2 f made, declared_encoder raw]
    rfl

theorem StructDecl.length_declared {s : StructDecl} {codecs : Codecs} {known : List EnumDecl}
    {b : Block} {ws : List Warning} (name : Within (Call.isPath ·) s.name)
    (parameters : ∀ p ∈ s.parameters, Within (Call.isPath ·) p)
    (emitted : s.block codecs known = .ok (b, ws)) :
    ∀ function, ∀ f ∈ b.function? function,
      f.declared.length = s.parameters.length + inputs function := by
  obtain ⟨decoded, encoded⟩ := made_of_block emitted
  apply Block.forall_functions
  · intro f made
    rw [declared_decoder name parameters (decoded f made), Function.length_unlabelled]
    simp [decodeParameters]
  · intro f made
    rw [declared_encoder parameters (encoded f made), Function.length_unlabelled]
    simp [encodeParameters]

theorem declared_of_block (member : file ∈ files) {time : Time} {g : GeneratedFile}
    (generated : file.generate (Registry.scan files) time = .ok g) {b : Block}
    (block : b ∈ g.blocks) :
    ∃ d ∈ arities files, d.1 = b.typeName ∧
      ∀ function, ∀ f ∈ b.function? function, f.declared.length = d.2 + inputs function := by
  have valid := Inventory.validate_eq_ok.mp (SourceFile.generate_eq_ok.mp generated).1
  have path {n : String} (typed : n ∈ file.flatten.typeNames) : Within (Call.isPath ·) n :=
    StructDecl.WellNamed.path_of_isDotted (valid.1.1 n typed)
  rcases SourceFile.block_cases generated (GeneratedFile.mem_blocks.mp block) with
    ⟨e, enum, rfl⟩ | ⟨s, struct, s', known, ws, resolves, emitted⟩
  · have declared : (e.name, 0) ∈ arities files :=
      List.mem_flatMap.mpr ⟨file, member, List.mem_append_right _ (List.mem_map_of_mem enum)⟩
    have raw := StructDecl.WellNamed.path_of_isDotted (valid.2.2.1 e enum)
    have lengths := EnumDecl.length_declared
      (path (List.mem_append_right _ (List.mem_map_of_mem enum))) raw (Registry.scan files).codecs
    exact ⟨_, declared, rfl, by simpa using lengths⟩
  · have declared : (s.name, s.parameters.length) ∈ arities files :=
      List.mem_flatMap.mpr
        ⟨file, member, List.mem_append_left _ (List.mem_map.mpr ⟨s, struct, rfl⟩)⟩
    have name : Within (Call.isPath ·) s'.name :=
      resolves.name ▸ path (List.mem_append_left _ (List.mem_map_of_mem struct))
    have parameters : ∀ p ∈ s'.parameters, Within (Call.isPath ·) p := by
      rw [resolves.parameters]
      intro p parameter
      have checked := (Inventory.validateStruct_eq_ok.mp (valid.2.1 s struct)).1 p parameter
      exact StructDecl.WellNamed.path_of_isIdentifier checked
    have lengths := StructDecl.length_declared name parameters emitted
    rw [resolves.parameters] at lengths
    have named := (StructDecl.block_eq_ok.mp emitted).1
    exact ⟨_, declared, resolves.name.symm.trans named.symm, lengths⟩

namespace Declares

variable {type function : String} {parameters : List String}

theorem length (codec : function ∈ [decodeName, encodeName])
    (declares : Declares files type function parameters) :
    ∃ d ∈ arities files ++ Support.arities,
      d.1 = type ∧ parameters.length = d.2 + inputs function := by
  cases declares with
  | generated member generated block named made =>
    obtain ⟨d, declared, of, lengths⟩ := declared_of_block member generated block
    exact ⟨d, List.mem_append_left _ declared, of.trans named, lengths function _ made⟩
  | support container declared =>
    obtain ⟨d, there, rfl⟩ := List.mem_map.mp container
    have same := List.mem_map_of_mem (f := List.length) declared
    rw [Support.declared_containers d there function codec, List.mem_singleton] at same
    exact ⟨d, List.mem_append_right _ there, rfl, same⟩

end Declares

/-! ## Calls -/

/-- What a struct of valid files is made of, once its field types are resolved. -/
structure Ready (files : List SourceFile) (file : SourceFile) (s : StructDecl) : Prop where
  words : ∀ n ∈ s.fieldNames, IsWord n ∧ n ≠ ""
  paths : ∀ f ∈ s.fields, f.type.Over (Within (Call.isPath ·))
  coded : ∀ f ∈ s.fields, ∀ n ∈ f.type.nodes, Coded files file s.name s.parameters n
  bare : ∀ f ∈ s.fields, f.type.Bare s.parameters

theorem ready_of_resolves (valid : ∀ file ∈ files, file.validate = .ok ())
    (applied : WellApplied files) (member : file ∈ files) {s s' : StructDecl}
    (struct : s ∈ file.flatten.structs) (resolves : (Registry.scan files).Resolves s s') :
    Ready files file s' := by
  have coded : ∀ f ∈ s'.fields, ∀ n ∈ f.type.nodes, Coded files file s'.name s'.parameters n := by
    intro f' field' n inside
    obtain ⟨f, field, -, resolved⟩ := exists_of_forall₂ resolves.fields.flip field'
    rw [resolves.parameters]
    exact .node struct resolves.name.symm field resolved inside
  have covered : s'.Over (Within (Call.isPath ·)) :=
    (resolves.over_resolved over_targets (over_struct struct)).mono fun _ =>
      applied.path_of_occurs valid member
  refine ⟨?_, fun f field => (covered.fields f field).2, coded, ?_⟩
  · intro n named
    obtain ⟨f', field', rfl⟩ := List.mem_map.mp named
    obtain ⟨f, field, same, -⟩ := exists_of_forall₂ resolves.fields.flip field'
    have checked := (Inventory.validate_eq_ok.mp (valid file member)).2.1 s struct
    have identifier := ((Inventory.validateStruct_eq_ok.mp checked).2 f field).1
    rw [same]
    refine ⟨Name.isTail_of_isIdentifier identifier, fun void => ?_⟩
    rw [void] at identifier
    exact absurd identifier (by decide)
  · intro f field n inside own
    have site := coded f field n inside
    rw [resolves.parameters] at site own
    exact applied.bare member struct site own

/-- A call for a type with a codec of its own. The type has as many arguments as it is declared
with, and the call as many as the function takes. -/
structure Fits (files : List SourceFile) (function : String) (n : TypeExpr) (c : Call) : Prop where
  arguments : ∀ d ∈ arities files ++ Support.arities, d.1 = n.resolvedName → n.args.length = d.2
  parameters : ∀ ps, Declares files n.resolvedName function ps → c.arguments.length = ps.length

namespace Fits

variable {type : String} {params : List String} {n : TypeExpr} {c : Call}

/-- Struct, enum or container: a type is coded with as many arguments as it is declared with. -/
theorem arguments_of_coded (valid : ∀ file ∈ files, file.validate = .ok ())
    (applied : WellApplied files) (member : file ∈ files) (coded : Coded files file type params n)
    (foreign : n.resolvedName ∉ params) :
    ∀ d ∈ arities files ++ Support.arities, d.1 = n.resolvedName → n.args.length = d.2 := by
  intro d declared
  rcases List.mem_append.mp declared with declared | container
  · exact applied.arguments member coded foreign d declared
  · exact applied.container_arguments valid member coded d container

/-- A call with an argument for each argument of its type, and for what the function takes besides,
has as many as the function has parameters. -/
theorem fitting {way : Direction} {t : TypeExpr} (codec : way.function ∈ [decodeName, encodeName])
    (length : ∀ n value, (way.call params n value).arguments.length =
      n.args.length + inputs way.function)
    (arguments : ∀ n ∈ t.nodes, n.resolvedName ∉ params →
      ∀ d ∈ arities files ++ Support.arities, d.1 = n.resolvedName → n.args.length = d.2) :
    t.Fitting way (Fits files way.function) params := by
  intro n inside foreign value
  have declared := arguments n inside foreign
  refine ⟨declared, fun ps declares => ?_⟩
  obtain ⟨d, present, named, same⟩ := declares.length codec
  rw [length, same, declared d present named]

theorem length_decoding (n : TypeExpr) (input : String) :
    (Direction.decoding.call params n input).arguments.length =
      n.args.length + inputs Direction.decoding.function := by
  simp [Direction.call, Direction.decoding]

theorem length_encoding (n : TypeExpr) (value : String) :
    (Direction.encoding.call params n value).arguments.length =
      n.args.length + inputs Direction.encoding.function := by
  simp [Direction.call, Direction.encoding]

end Fits

/-- The type arguments and the fields of a type that a file declares, as they are coded: those of a
struct once its field types are resolved, and none of an enum. -/
inductive Contents (files : List SourceFile) (file : SourceFile) (type : String) :
    List String → List Field → Prop where
  | enum {e : EnumDecl} (declared : e ∈ file.flatten.enums) (named : e.name = type) :
      Contents files file type [] []
  | struct {s s' : StructDecl} (declared : s ∈ file.flatten.structs) (named : s.name = type)
      (resolves : (Registry.scan files).Resolves s s') :
      Contents files file type s.parameters s'.fields

/-- A codec codes each field of its type by its own calls. In decoding they are applied to the entry
of the field, in encoding to the field, and those in a closure to what the closure is applied to.
The call for a type with a codec of its own has a closure for each argument of that type, as many as
the type is declared with, and in decoding the input behind them; so it has as many arguments as the
function that is called has parameters. -/
theorem calls_fit_signatures (files : List SourceFile)
    (valid : ∀ file ∈ files, file.validate = .ok ()) (applied : WellApplied files)
    (file : SourceFile) (member : file ∈ files) (time : Time) (g : GeneratedFile)
    (generated : file.generate (Registry.scan files) time = .ok g) (b : Block)
    (block : b ∈ g.blocks) :
    ∃ params fields, Contents files file b.typeName params fields ∧
      (∀ d ∈ b.decoder, d.CodesFields .decoding (Fits files decodeName) params fields) ∧
      ∀ e ∈ b.encoder, e.CodesFields .encoding (Fits files encodeName) params fields := by
  rcases SourceFile.block_cases generated (GeneratedFile.mem_blocks.mp block) with
    ⟨e, enum, rfl⟩ | ⟨s, struct, s', known, ws, resolves, emitted⟩
  · have raw := (Inventory.validate_eq_ok.mp (valid file member)).2.2.1 e enum
    obtain ⟨decoder, encoder⟩ :=
      EnumDecl.calls_eq_nil (StructDecl.WellNamed.path_of_isDotted raw)
    refine ⟨[], [], .enum enum rfl, fun d made => ⟨[], .nil, ?_⟩, fun d made => ⟨[], .nil, ?_⟩⟩
    · rw [EnumDecl.made_of_block.1 d made, decoder]
      rfl
    · rw [EnumDecl.made_of_block.2 d made, encoder]
      rfl
  · obtain ⟨decoded, encoded⟩ := StructDecl.made_of_block emitted
    have ready := ready_of_resolves valid applied member struct resolves
    have arguments (f : Field) (field : f ∈ s'.fields) (n : TypeExpr) (inside : n ∈ f.type.nodes) :=
      Fits.arguments_of_coded valid applied member (ready.coded f field n inside)
    have named := (StructDecl.block_eq_ok.mp emitted).1.trans resolves.name
    refine ⟨_, _, .struct struct named.symm resolves, fun d made => ?_, fun e made => ?_⟩
    · rw [← resolves.parameters]
      exact StructDecl.decoder_codes (fun n named => (ready.words n named).1) ready.paths ready.bare
        (fun f field => Fits.fitting (by simp [Direction.decoding]) Fits.length_decoding
          (arguments f field)) (decoded d made)
    · rw [← resolves.parameters]
      exact StructDecl.encoder_codes ready.words ready.paths
        (fun f field => Fits.fitting (by simp [Direction.encoding]) Fits.length_encoding
          (arguments f field)) (encoded e made)

def pairFile : SourceFile where
  filename := "Pair.swift"
  declarations := [
    .struct ⟨"Pair", ["A", "B"], [⟨"first", .named "A"⟩, ⟨"second", .named "B"⟩], []⟩,
    .typeAlias ⟨"Ends", .generic "Pair" [.named "Int", .optional (.named "Stop")]⟩]

def routeFile : SourceFile where
  filename := "Route.swift"
  declarations := [
    .struct ⟨"Route", [], [⟨"ends", .named "Ends"⟩], []⟩,
    .enum ⟨"Stop", "String"⟩ []]

def route : StructDecl :=
  ⟨"Route", [], [⟨"ends", .generic "Pair" [.named "Int", .optional (.named "Stop")]⟩], []⟩

theorem route_generate (time : Time) :
    ∃ g, routeFile.generate (Registry.scan [pairFile, routeFile]) time = .ok g ∧
      ∃ b ∈ g.blocks, ∃ d ∈ b.decoder, ∃ e ∈ b.encoder, ∃ known ws,
        route.decoder = .ok d ∧ route.encoder known = .ok (e, ws) := by
  generalize scanned : Registry.scan [pairFile, routeFile] = r
  have ends : r.aliases.target? "Ends" =
      some (.generic "Pair" [.named "Int", .optional (.named "Stop")]) := by rw [← scanned]; rfl
  have int : r.aliases.target? "Int" = none := by rw [← scanned]; rfl
  have stop : r.aliases.target? "Stop" = none := by rw [← scanned]; rfl
  have string : r.aliases.target? "String" = none := by rw [← scanned]; rfl
  let known : List EnumDecl := [⟨"Stop", "String"⟩]
  have resolved : routeFile.flatten.structs.mapM r.resolveStruct = .ok [route] := by
    have written : routeFile.flatten.structs = [⟨"Route", [], [⟨"ends", .named "Ends"⟩], []⟩] := rfl
    simp [written, route, Registry.resolveStruct, TypeExpr.optional, TypeExpr.generic,
      TypeExpr.named, Aliases.resolveIn_leaf, Aliases.resolveIn_cons, Aliases.follow_eq, ends, int,
      stop, Aliases.replace, bind, Except.bind, pure, Except.pure]
  have enums : r.knownEnums routeFile.flatten.enums = .ok known := by
    have here : routeFile.flatten.enums = [⟨"Stop", "String"⟩] := rfl
    have recorded : r.enums.entries = [("Stop", "String")] := by rw [← scanned]; rfl
    simp [Registry.knownEnums, here, recorded, known, Registry.resolveEnum, Aliases.resolve,
      TypeExpr.resolvedName, TypeExpr.named, Aliases.resolveIn_leaf, Aliases.follow_eq, string,
      Aliases.replace, bind, Except.bind, pure, Except.pure]
  obtain ⟨b, ws, d, e, emitted, decoder, encoder, decodes, encodes⟩ : ∃ b ws d e,
      [route].mapM (·.block r.codecs known) = .ok [(b, ws)] ∧ b.decoder = some d ∧
        b.encoder = some e ∧ route.decoder = .ok d ∧ route.encoder known = .ok (e, ws) := by
    rw [← scanned]
    exact ⟨_, _, _, _, rfl, rfl, rfl, rfl, rfl⟩
  have written : ¬ b.isVoid := by simp [Block.isVoid, decoder]
  have listed : b ∈ routeFile.flatten.enums.map (·.block r.codecs) ++ [(b, ws)].map Prod.fst := by
    simp
  have valid : routeFile.validate = .ok () := by decide
  refine ⟨routeFile.assemble time r.codecs [(b, ws)], ?_, b, ?_, d, decoder, e, encoder, known, ws,
    decodes, encodes⟩
  · exact SourceFile.generate_eq_ok.mpr ⟨valid, [route], known, _, resolved, enums, emitted, rfl⟩
  · exact GeneratedFile.mem_blocks.mpr (SourceFile.mem_sections_assemble.mpr ⟨listed, written⟩)

def routeDecoding : List Call := [
  ⟨"Pair.decodeJson", ["\x7b Int.decodeJson($0) \x7d",
    "\x7b Optional.decodeJson(\x7b Stop.decodeJson($0) \x7d, $0) \x7d", "ends_field"]⟩,
  ⟨"Int.decodeJson", ["$0"]⟩,
  ⟨"Optional.decodeJson", ["\x7b Stop.decodeJson($0) \x7d", "$0"]⟩,
  ⟨"Stop.decodeJson", ["$0"]⟩]

def routeEncoding : List Call := [
  ⟨"ends.encodeJson", ["\x7b $0.encodeJson() \x7d",
    "\x7b $0.encodeJson(\x7b $0.encodeJson() \x7d) \x7d"]⟩,
  ⟨"$0.encodeJson", []⟩,
  ⟨"$0.encodeJson", ["\x7b $0.encodeJson() \x7d"]⟩,
  ⟨"$0.encodeJson", []⟩]

theorem calls_decoder_route {d : Function} (decodes : route.decoder = .ok d) :
    d.calls = routeDecoding := by
  have read : route.decoder.map Function.calls = .ok routeDecoding := by decide +kernel
  rw [decodes] at read
  exact Except.ok.inj read

/-- The type of the one field has no keys, so no enums are asked for. -/
theorem calls_encoder_route {known : List EnumDecl} {e : Function} {ws : List Warning}
    (encodes : route.encoder known = .ok (e, ws)) : e.calls = routeEncoding := by
  have same : route.encoder known = route.encoder [] := rfl
  have read : (route.encoder []).map (·.1.calls) = .ok routeEncoding := by decide +kernel
  rw [← same, encodes] at read
  exact Except.ok.inj read

theorem calls_fit_signatures_route :
    (∀ file ∈ [pairFile, routeFile], file.validate = .ok ()) ∧ WellApplied [pairFile, routeFile] ∧
    routeFile ∈ [pairFile, routeFile] ∧
    ∃ g, routeFile.generate (Registry.scan [pairFile, routeFile]) ⟨0, 0⟩ = .ok g ∧
      ∃ b ∈ g.blocks, ∃ d ∈ b.decoder, ∃ e ∈ b.encoder,
        d.calls = routeDecoding ∧ e.calls = routeEncoding ∧
        ∃ params fields, Contents [pairFile, routeFile] routeFile b.typeName params fields ∧
          d.CodesFields .decoding (Fits [pairFile, routeFile] decodeName) params fields ∧
          e.CodesFields .encoding (Fits [pairFile, routeFile] encodeName) params fields := by
  have valid : ∀ file ∈ [pairFile, routeFile], file.validate = .ok () := by decide
  have applied : WellApplied [pairFile, routeFile] := by decide
  have member : routeFile ∈ [pairFile, routeFile] := by simp
  obtain ⟨g, generated, b, block, d, decoder, e, encoder, known, ws, decodes, encodes⟩ :=
    route_generate ⟨0, 0⟩
  obtain ⟨params, fields, contents, decoding, encoding⟩ :=
    calls_fit_signatures [pairFile, routeFile] valid applied routeFile member ⟨0, 0⟩ g generated b
      block
  exact ⟨valid, applied, member, g, generated, b, block, d, decoder, e, encoder,
    calls_decoder_route decodes, calls_encoder_route encodes, params, fields, contents,
    decoding d decoder, encoding e encoder⟩

end SwiftCodec
