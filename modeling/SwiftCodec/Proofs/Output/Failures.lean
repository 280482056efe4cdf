import SwiftCodec.Proofs.Declaration.Validity
import SwiftCodec.Proofs.Output.Emission
import SwiftCodec.Proofs.Output.Judgement
import SwiftCodec.Proofs.Registry.Scan
import SwiftCodec.Proofs.Registry.Resolving
import SwiftCodec.Proofs.Resolution.Preservation

/-!
What can go wrong once all files are valid. Field types stay valid when they are resolved, so every
type that is met has a shape; what is left is an alias that refers to itself, and a dictionary key
that cannot be judged.
-/
namespace SwiftCodec

variable {r : Registry} {enums known : List EnumDecl}

theorem Field.decode_of_shape {f : Field} {shape : Shape} (shaped : f.type.shape = .ok shape)
    (params : List String) : ∃ statements, f.decode params = .ok statements := by
  unfold decode
  simp only [shaped, bind, Except.bind]
  split <;> exact ⟨_, rfl⟩

namespace StructDecl

variable {s s' : StructDecl}

theorem decoder_of_shapes (shaped : ∀ f ∈ s.fields, ∃ shape, f.type.shape = .ok shape) :
    ∃ d, s.decoder = .ok d := by
  cases h : s.decoder with
  | ok d => exact ⟨d, rfl⟩
  | error d =>
    obtain ⟨f, member, failed⟩ := exists_of_mapM_eq_error (bind_ok_eq_error.mp h)
    obtain ⟨shape, hshape⟩ := shaped f member
    obtain ⟨statements, decoded⟩ := Field.decode_of_shape hshape s.parameters
    cases failed.symm.trans decoded

/-- A field can be marked, or it is one that cannot be encoded. -/
theorem mark_or_unencodable (enumsResolved : r.knownEnums enums = .ok known)
    (lacking : ¬ r.codecs.hasEncoder s.name) {f f' : Field} (name : f'.name = f.name)
    (resolved : r.aliases.resolveIn s.parameters [] f.type = .ok f'.type) {shape : Shape}
    (shaped : f'.type.shape = .ok shape) {d : Defect} :
    f'.mark known = .error d ↔
      ∃ u key, Unencodable r enums s f u key ∧ d = .unsupportedKey f.name key := by
  obtain ⟨fieldName, type⟩ := f'
  obtain rfl : fieldName = f.name := name
  rw [Field.mark, map_eq_error, failed_iff_unencodable enumsResolved lacking resolved shaped]
  constructor
  · rintro ⟨key, unencodable, rfl⟩
    exact ⟨type, key, unencodable, rfl⟩
  · rintro ⟨u, key, unencodable, rfl⟩
    cases resolved.symm.trans unencodable.resolved
    exact ⟨key, unencodable, rfl⟩

/-- Marking fields fails at the first that cannot be encoded. -/
theorem first_unencodable_field (enumsResolved : r.knownEnums enums = .ok known)
    (lacking : ¬ r.codecs.hasEncoder s.name) {fs fs' : List Field}
    (fields : List.Forall₂
      (fun f f' => f'.name = f.name ∧ r.aliases.resolveIn s.parameters [] f.type = .ok f'.type)
      fs fs')
    (shaped : ∀ f ∈ fs', ∃ shape, f.type.shape = .ok shape) {d : Defect}
    (failed : fs'.mapM (·.mark known) = .error d) :
    ∃ f u key, d = .unsupportedKey f.name key ∧ Unencodable r enums s f u key ∧
      IsFirst (fun p => ∃ u key, Unencodable r enums p.1 p.2 u key) (fs.map (s, ·)) (s, f) := by
  induction fields with
  | nil => cases failed
  | @cons f f' fs fs' head _ ih =>
    obtain ⟨⟨shape, hshape⟩, shaped⟩ := List.forall_mem_cons.mp shaped
    have marked : ∀ d, f'.mark known = .error d ↔
        ∃ u key, Unencodable r enums s f u key ∧ d = .unsupportedKey f.name key :=
      fun d => mark_or_unencodable enumsResolved lacking head.1 head.2 hshape
    rcases mapM_cons_eq_error.mp failed with failed | ⟨mark, hmark, failed⟩
    · obtain ⟨u, key, unencodable, rfl⟩ := (marked d).mp failed
      exact ⟨f, u, key, rfl, unencodable, .head ⟨u, key, unencodable⟩⟩
    · obtain ⟨g, u, key, rfl, unencodable, first⟩ := ih shaped failed
      have encodable : ¬ ∃ u key, Unencodable r enums s f u key := by
        rintro ⟨u, key, unencodable⟩
        cases hmark.symm.trans ((marked _).mpr ⟨u, key, unencodable, rfl⟩)
      exact ⟨g, u, key, rfl, unencodable, first.cons encodable⟩

/-- A struct that gives a block has no field that cannot be encoded. -/
theorem encodable_of_block (enumsResolved : r.knownEnums enums = .ok known)
    (resolved : r.Resolves s s') (shaped : ∀ f ∈ s'.fields, ∃ shape, f.type.shape = .ok shape)
    {row : Block × List Warning} (emitted : s'.block r.codecs known = .ok row) :
    ∀ p ∈ s.fields.map (s, ·), ¬ ∃ u key, Unencodable r enums p.1 p.2 u key := by
  rintro p member ⟨u, key, unencodable⟩
  obtain ⟨f, field, rfl⟩ := List.mem_map.mp member
  have lacking := unencodable.lacking
  rw [← resolved.name] at lacking
  obtain ⟨_, _, encodes⟩ := block_eq_ok.mp emitted
  rcases missingEncoder_cases encodes with ⟨there, _⟩ | ⟨_, e, made, _⟩
  · exact lacking there
  obtain ⟨marks, marked, _⟩ := encoder_eq_ok.mp made
  obtain ⟨f', field', name, hf'⟩ := exists_of_forall₂ resolved.fields field
  obtain ⟨mark, _, hmark⟩ := exists_of_forall₂ (mapM_eq_ok.mp marked) field'
  obtain ⟨shape, hshape⟩ := shaped f' field'
  have failed := (mark_or_unencodable enumsResolved unencodable.lacking name hf' hshape).mpr
    ⟨u, key, unencodable, rfl⟩
  cases hmark.symm.trans failed

/-- A struct gives no block because of its first field that cannot be encoded. -/
theorem first_unencodable_of_block (enumsResolved : r.knownEnums enums = .ok known)
    (resolved : r.Resolves s s') (shaped : ∀ f ∈ s'.fields, ∃ shape, f.type.shape = .ok shape)
    {d : Defect} (failed : s'.block r.codecs known = .error d) :
    ∃ f u key, d = .unsupportedKey f.name key ∧ Unencodable r enums s f u key ∧
      IsFirst (fun p => ∃ u key, Unencodable r enums p.1 p.2 u key)
        (s.fields.map (s, ·)) (s, f) := by
  rcases block_error_cases failed with failed | ⟨lacking, failed⟩
  · obtain ⟨decoder, made⟩ := decoder_of_shapes shaped
    cases failed.symm.trans made
  · rw [resolved.name] at lacking
    exact first_unencodable_field enumsResolved lacking resolved.fields shaped
      (encoder_eq_error.mp failed)

theorem first_unencodable_of_blocks (enumsResolved : r.knownEnums enums = .ok known)
    {structs structs' : List StructDecl} (resolved : List.Forall₂ r.Resolves structs structs')
    (shaped : ∀ s ∈ structs', ∀ f ∈ s.fields, ∃ shape, f.type.shape = .ok shape)
    {d : Defect} (failed : structs'.mapM (·.block r.codecs known) = .error d) :
    ∃ s f u key, d = .unsupportedKey f.name key ∧ Unencodable r enums s f u key ∧
      IsFirst (fun p => ∃ u key, Unencodable r enums p.1 p.2 u key)
        (structs.flatMap fun s => s.fields.map (s, ·)) (s, f) := by
  induction resolved with
  | nil => cases failed
  | @cons s s' structs structs' head _ ih =>
    obtain ⟨shaped, shapedAll⟩ := List.forall_mem_cons.mp shaped
    rw [List.flatMap_cons]
    rcases mapM_cons_eq_error.mp failed with failed | ⟨row, emitted, failed⟩
    · obtain ⟨f, u, key, named, unencodable, first⟩ :=
        first_unencodable_of_block enumsResolved head shaped failed
      exact ⟨s, f, u, key, named, unencodable, first.append_right _⟩
    · obtain ⟨s, f, u, key, named, unencodable, first⟩ := ih shapedAll failed
      exact ⟨s, f, u, key, named, unencodable,
        first.append_left (encodable_of_block enumsResolved head shaped emitted)⟩

end StructDecl

/-- The targets of the aliases of valid files are valid. -/
theorem valid_targets {files : List SourceFile} (valid : ∀ file ∈ files, file.validate = .ok ())
    (name : String) (t : TypeExpr) (known : (Registry.scan files).aliases.target? name = some t) :
    t.validate = .ok () := by
  obtain ⟨file, member, a, declared, _, rfl⟩ :=
    Registry.exists_alias_of_find? (Aliases.find?_of_target? known)
  have checked := (Inventory.validate_eq_ok.mp (valid file member)).2.2.2 a declared
  exact (Inventory.validateAlias_eq_ok.mp checked).2

theorem valid_field {file : SourceFile} (valid : file.validate = .ok ()) {s : StructDecl}
    (struct : s ∈ file.flatten.structs) {f : Field} (field : f ∈ s.fields) :
    f.type.validate = .ok () := by
  have checked := (Inventory.validate_eq_ok.mp valid).2.1 s struct
  exact ((Inventory.validateStruct_eq_ok.mp checked).2 f field).2

/-- What can come of a file once all files are valid. A key that cannot be judged is reported for
the first field which cannot be encoded. -/
inductive ValidOutcome (r : Registry) (file : SourceFile) : Except Defect GeneratedFile → Prop where
  | generated (g : GeneratedFile) : ValidOutcome r file (.ok g)
  | aliasCycle (name : String) : ValidOutcome r file (.error (.aliasCycle name))
  | unsupportedKey {s : StructDecl} {f : Field} {u : TypeExpr} {key : String}
      (unencodable : Unencodable r file.flatten.enums s f u key)
      (first : IsFirst (fun p => ∃ u key, Unencodable r file.flatten.enums p.1 p.2 u key)
        file.fields (s, f)) : ValidOutcome r file (.error (.unsupportedKey f.name key))

/-- Field types stay valid when they are resolved against the registry of valid files. -/
theorem valid_resolved {files : List SourceFile} (valid : ∀ file ∈ files, file.validate = .ok ())
    {file : SourceFile} (member : file ∈ files) {s : StructDecl} {f : Field}
    (struct : s ∈ file.flatten.structs) (field : f ∈ s.fields) {u : TypeExpr}
    (resolved : (Registry.scan files).aliases.resolveIn s.parameters [] f.type = .ok u) :
    u.validate = .ok () :=
  Aliases.valid_resolveIn (valid_targets valid) (valid_field (valid file member) struct field)
    resolved

/-- A file of which structs give no block, all names being resolved, has a key that cannot be
judged. -/
theorem first_unencodable_of_file {files : List SourceFile}
    (valid : ∀ file ∈ files, file.validate = .ok ()) {file : SourceFile} (member : file ∈ files)
    (enumsResolved : (Registry.scan files).knownEnums file.flatten.enums = .ok known)
    {structs : List StructDecl}
    (resolved : List.Forall₂ (Registry.scan files).Resolves file.flatten.structs structs)
    {d : Defect} (failed : structs.mapM (·.block (Registry.scan files).codecs known) = .error d) :
    ∃ s f u key, d = .unsupportedKey f.name key ∧
      Unencodable (Registry.scan files) file.flatten.enums s f u key ∧
      IsFirst (fun p => ∃ u key, Unencodable (Registry.scan files) file.flatten.enums p.1 p.2 u key)
        file.fields (s, f) := by
  have shaped : ∀ s ∈ structs, ∀ f ∈ s.fields, ∃ shape, f.type.shape = .ok shape := by
    intro s' struct' f' field'
    obtain ⟨s, struct, resolves⟩ := exists_of_forall₂ resolved.flip struct'
    obtain ⟨f, field, _, hf⟩ := exists_of_forall₂ resolves.fields.flip field'
    exact (TypeExpr.validate_eq_ok.mp (valid_resolved valid member struct field hf)).2.1
  exact StructDecl.first_unencodable_of_blocks enumsResolved resolved shaped failed

/-- Against the registry of valid files all nodes of field types stay well formed, and one of the
files is generated unless an alias refers to itself or a key cannot be judged. -/
theorem generation_of_valid_files (files : List SourceFile)
    (valid : ∀ file ∈ files, file.validate = .ok ()) (file : SourceFile) (member : file ∈ files)
    (time : Time) :
    (∀ s ∈ file.flatten.structs, ∀ f ∈ s.fields, ∀ u,
      (Registry.scan files).aliases.resolveIn s.parameters [] f.type = .ok u →
        ∀ n ∈ u.nodes, Name.isDotted n.base ∧ ∃ shape, n.shape = .ok shape) ∧
    ValidOutcome (Registry.scan files) file (file.generate (Registry.scan files) time) := by
  refine ⟨fun s struct f field u resolved =>
    TypeExpr.validate_iff_nodes.mp (valid_resolved valid member struct field resolved), ?_⟩
  cases generated : file.generate (Registry.scan files) time with
  | ok g => exact .generated g
  | error d =>
    rcases SourceFile.generate_eq_error.mp generated with invalid | ⟨_, failed⟩
    · cases (valid file member).symm.trans invalid
    rcases failed with failed | ⟨structs, resolved, failed⟩
    · obtain ⟨s, _, failed⟩ := exists_of_mapM_eq_error failed
      obtain ⟨n, rfl⟩ := Registry.aliasCycle_of_resolveStruct failed
      exact .aliasCycle n
    rcases failed with failed | ⟨known, enumsResolved, failed⟩
    · obtain ⟨n, rfl⟩ := Registry.aliasCycle_of_knownEnums failed
      exact .aliasCycle n
    · obtain ⟨s, f, u, key, rfl, unencodable, first⟩ :=
        first_unencodable_of_file valid member enumsResolved (Registry.resolves_structs resolved)
          failed
      exact .unsupportedKey unencodable first

theorem generation_of_valid_files_shapes :
    (∀ file ∈ [shapes, support], file.validate = .ok ()) ∧ shapes ∈ [shapes, support] ∧
    (∀ s ∈ shapes.flatten.structs, ∀ f ∈ s.fields, ∀ u,
      (Registry.scan [shapes, support]).aliases.resolveIn s.parameters [] f.type = .ok u →
        ∀ n ∈ u.nodes, Name.isDotted n.base ∧ ∃ shape, n.shape = .ok shape) ∧
    ValidOutcome (Registry.scan [shapes, support]) shapes
      (shapes.generate (Registry.scan [shapes, support]) ⟨0, 0⟩) := by
  have valid : ∀ file ∈ [shapes, support], file.validate = .ok () := by decide
  have member : shapes ∈ [shapes, support] := List.mem_cons_self
  exact ⟨valid, member, generation_of_valid_files [shapes, support] valid shapes member ⟨0, 0⟩⟩

end SwiftCodec
