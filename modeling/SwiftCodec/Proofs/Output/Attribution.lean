import SwiftCodec.Proofs.Output.Failures
import SwiftCodec.Proofs.Registry.Agreement

/-!
Which documents an alias cycle comes from. Field types are resolved for the file at hand only, but
the raw types of the enums of all files are resolved for each of them. So a cycle that stops a file
is reached from the file itself, or from the raw type of an enum that only other files declare.
-/
namespace SwiftCodec

namespace Aliases

/-- A type from which a cycle can be reached. -/
def Cyclic (m : Aliases) (params : List String) (t : TypeExpr) : Prop :=
  ∃ n, m.Reaches params t n ∧ m.OnCycle n

variable {m : Aliases} {params : List String} {t : TypeExpr}

theorem reaches_of_error {n : String} (failed : m.resolveIn params [] t = .error (.aliasCycle n)) :
    m.Reaches params t n ∧ m.OnCycle n := by
  obtain ⟨n', same, found⟩ := resolveIn_error (by simp) failed
  cases same
  exact found

theorem fails_iff_cyclic : Fails (m.resolveIn params [] t) ↔ m.Cyclic params t := by
  constructor
  · intro failed
    obtain ⟨n, failed⟩ := fails_iff_aliasCycle.mp failed
    exact ⟨n, reaches_of_error failed⟩
  · rintro ⟨n, ⟨first, used, path⟩, cycle⟩
    rcases ok_or_fails (m.resolveIn params [] t) with ⟨u, resolved⟩ | failed
    · exact absurd cycle (not_onCycle (grounded_of_path (grounded_of_resolveIn resolved used) path))
    · exact failed

end Aliases

namespace Registry

variable {r : Registry} {s : StructDecl} {e : EnumDecl} {n : String}

theorem resolveStruct_reaches (failed : r.resolveStruct s = .error (.aliasCycle n)) :
    ∃ f ∈ s.fields, r.aliases.Reaches s.parameters f.type n ∧ r.aliases.OnCycle n := by
  obtain ⟨f, field, failed⟩ := exists_of_mapM_eq_error (bind_ok_eq_error.mp failed)
  exact ⟨f, field, Aliases.reaches_of_error (bind_ok_eq_error.mp failed)⟩

theorem resolveStruct_fails_iff :
    Fails (r.resolveStruct s) ↔ ∃ f ∈ s.fields, r.aliases.Cyclic s.parameters f.type := by
  simp only [resolveStruct, fails_bind_ok, fails_mapM, Aliases.fails_iff_cyclic]

theorem resolveEnum_reaches (failed : r.resolveEnum e = .error (.aliasCycle n)) :
    r.aliases.Reaches [] (.named e.rawType) n ∧ r.aliases.OnCycle n :=
  Aliases.reaches_of_error (bind_ok_eq_error.mp failed)

theorem resolveEnum_fails_iff :
    Fails (r.resolveEnum e) ↔ r.aliases.Cyclic [] (.named e.rawType) := by
  simp only [resolveEnum, Aliases.resolve, fails_bind_ok, Aliases.fails_iff_cyclic]

/-- An enum that is recorded, but not under a name that the file declares. -/
def Elsewhere (r : Registry) (file : SourceFile) (e : EnumDecl) : Prop :=
  (∀ h ∈ file.flatten.enums, h.name ≠ e.name) ∧ r.enums.find? e.name = some e.rawType

theorem Elsewhere.declared {files : List SourceFile} {file : SourceFile}
    (elsewhere : (scan files).Elsewhere file e) : ∃ other ∈ files, e ∈ other.flatten.enums := by
  have found := elsewhere.2
  rw [find?_enums_scan] at found
  obtain ⟨e', last, raw⟩ := Option.map_eq_some_iff.mp found
  obtain ⟨other, member, declared⟩ :=
    List.mem_flatMap.mp (List.mem_reverse.mp (List.mem_of_find?_eq_some last))
  have named : e'.name = e.name := by simpa using List.find?_some last
  obtain rfl : e' = e := by
    cases e'
    cases e
    simp_all only
  exact ⟨other, member, declared⟩

end Registry

namespace SourceFile

/-- A type written in the file leads to the alias: that of a field, or the raw type of an enum. -/
def Reaches (file : SourceFile) (m : Aliases) (n : String) : Prop :=
  (∃ p ∈ file.fields, m.Reaches p.1.parameters p.2.type n) ∨
    ∃ e ∈ file.flatten.enums, m.Reaches [] (.named e.rawType) n

/-- A file from which a cycle can be reached. -/
def Cyclic (file : SourceFile) (m : Aliases) : Prop := ∃ n, file.Reaches m n ∧ m.OnCycle n

variable {r : Registry} {file : SourceFile} {n : String}

theorem reaches_of_structs (failed : file.flatten.structs.mapM r.resolveStruct =
    .error (.aliasCycle n)) : file.Reaches r.aliases n ∧ r.aliases.OnCycle n := by
  obtain ⟨s, struct, failed⟩ := exists_of_mapM_eq_error failed
  obtain ⟨f, field, reached, cycle⟩ := Registry.resolveStruct_reaches failed
  exact ⟨.inl ⟨(s, f), mem_fields struct field, reached⟩, cycle⟩

/-- The enums of the file at hand are resolved before the others, so these are to blame only if
none of those leads to a cycle. -/
theorem reaches_of_enums (distinct : r.enums.keys.Nodup)
    (failed : r.knownEnums file.flatten.enums = .error (.aliasCycle n)) :
    file.Reaches r.aliases n ∧ r.aliases.OnCycle n ∨
      ∃ e, r.Elsewhere file e ∧ r.aliases.Reaches [] (.named e.rawType) n ∧
        r.aliases.OnCycle n ∧
        ∀ e ∈ file.flatten.enums, ¬ r.aliases.Cyclic [] (.named e.rawType) := by
  rw [Registry.knownEnums_eq, Registry.candidates, mapM_append_eq_error] at failed
  rcases failed with failed | ⟨_, resolved, failed⟩
  · obtain ⟨e, declared, failed⟩ := exists_of_mapM_eq_error failed
    obtain ⟨reached, cycle⟩ := Registry.resolveEnum_reaches failed
    exact .inl ⟨.inr ⟨e, declared, reached⟩, cycle⟩
  · have sound : ∀ e ∈ file.flatten.enums, ¬ r.aliases.Cyclic [] (.named e.rawType) := by
      intro e declared cyclic
      have failed := fails_mapM.mpr ⟨e, declared, Registry.resolveEnum_fails_iff.mpr cyclic⟩
      exact fails_iff_not_ok.mp failed ⟨_, resolved⟩
    obtain ⟨e, recorded, failed⟩ := exists_of_mapM_eq_error failed
    obtain ⟨reached, cycle⟩ := Registry.resolveEnum_reaches failed
    rcases (Registry.mem_candidates distinct).mp (List.mem_append_right _ recorded) with
      declared | elsewhere
    · exact absurd ⟨n, reached, cycle⟩ (sound e declared)
    · exact .inr ⟨e, elsewhere, reached, cycle, sound⟩

theorem structs_fail_iff :
    Fails (file.flatten.structs.mapM r.resolveStruct) ↔
      ∃ p ∈ file.fields, r.aliases.Cyclic p.1.parameters p.2.type := by
  rw [fails_mapM]
  constructor
  · rintro ⟨s, struct, failed⟩
    obtain ⟨f, field, cyclic⟩ := Registry.resolveStruct_fails_iff.mp failed
    exact ⟨(s, f), mem_fields struct field, cyclic⟩
  · rintro ⟨p, written, cyclic⟩
    obtain ⟨s, struct, written⟩ := List.mem_flatMap.mp written
    obtain ⟨f, field, rfl⟩ := List.mem_map.mp written
    exact ⟨s, struct, Registry.resolveStruct_fails_iff.mpr ⟨f, field, cyclic⟩⟩

theorem enums_fail_iff (distinct : r.enums.keys.Nodup) :
    Fails (r.knownEnums file.flatten.enums) ↔
      (∃ e ∈ file.flatten.enums, r.aliases.Cyclic [] (.named e.rawType)) ∨
        ∃ e, r.Elsewhere file e ∧ r.aliases.Cyclic [] (.named e.rawType) := by
  simp only [Registry.knownEnums_eq, fails_mapM, Registry.mem_candidates distinct,
    Registry.resolveEnum_fails_iff, or_and_right, exists_or, Registry.Elsewhere]

theorem cyclic_iff {m : Aliases} :
    file.Cyclic m ↔
      (∃ p ∈ file.fields, m.Cyclic p.1.parameters p.2.type) ∨
        ∃ e ∈ file.flatten.enums, m.Cyclic [] (.named e.rawType) := by
  constructor
  · rintro ⟨n, ⟨p, written, reached⟩ | ⟨e, declared, reached⟩, cycle⟩
    · exact .inl ⟨p, written, n, reached, cycle⟩
    · exact .inr ⟨e, declared, n, reached, cycle⟩
  · rintro (⟨p, written, n, reached, cycle⟩ | ⟨e, declared, n, reached, cycle⟩)
    · exact ⟨n, .inl ⟨p, written, reached⟩, cycle⟩
    · exact ⟨n, .inr ⟨e, declared, reached⟩, cycle⟩

end SourceFile

section

variable {files : List SourceFile} {file : SourceFile} {time : Time} {n : String}

/-- In a run over valid files an alias cycle is met while names are resolved, or not at all. -/
theorem aliasCycle_iff_resolution (valid : ∀ file ∈ files, file.validate = .ok ())
    (member : file ∈ files) :
    file.generate (Registry.scan files) time = .error (.aliasCycle n) ↔
      file.flatten.structs.mapM (Registry.scan files).resolveStruct = .error (.aliasCycle n) ∨
        (∃ structs, file.flatten.structs.mapM (Registry.scan files).resolveStruct = .ok structs) ∧
          (Registry.scan files).knownEnums file.flatten.enums = .error (.aliasCycle n) := by
  rw [SourceFile.generate_eq_error]
  constructor
  · rintro (invalid | ⟨_, failed | ⟨structs, resolved, failed | ⟨known, enumsResolved, failed⟩⟩⟩)
    · cases (valid file member).symm.trans invalid
    · exact .inl failed
    · exact .inr ⟨⟨structs, resolved⟩, failed⟩
    · obtain ⟨_, _, _, _, unsupported, _⟩ := first_unencodable_of_file valid member enumsResolved
        (Registry.resolves_structs resolved) failed
      cases unsupported
  · rintro (failed | ⟨⟨structs, resolved⟩, failed⟩)
    · exact .inr ⟨valid file member, .inl failed⟩
    · exact .inr ⟨valid file member, .inr ⟨structs, resolved, .inl failed⟩⟩

/-- A name that is reported lies on a cycle. It is reached from the file at hand, or else nothing
in that file leads to a cycle and an enum of another file is to blame. -/
theorem reported_from (valid : ∀ file ∈ files, file.validate = .ok ()) (member : file ∈ files)
    (failed : file.generate (Registry.scan files) time = .error (.aliasCycle n)) :
    (Registry.scan files).aliases.OnCycle n ∧
      (file.Reaches (Registry.scan files).aliases n ∨
        ¬ file.Cyclic (Registry.scan files).aliases ∧
          ∃ e, (Registry.scan files).Elsewhere file e ∧
            (Registry.scan files).aliases.Reaches [] (.named e.rawType) n) := by
  rcases (aliasCycle_iff_resolution valid member).mp failed with
    failed | ⟨⟨structs, resolved⟩, failed⟩
  · obtain ⟨reached, cycle⟩ := SourceFile.reaches_of_structs failed
    exact ⟨cycle, .inl reached⟩
  · rcases SourceFile.reaches_of_enums (Registry.nodup_enums_scan files) failed with
      ⟨reached, cycle⟩ | ⟨e, elsewhere, reached, cycle, sound⟩
    · exact ⟨cycle, .inl reached⟩
    · refine ⟨cycle, .inr ⟨fun cyclic => ?_, e, elsewhere, reached⟩⟩
      rcases SourceFile.cyclic_iff.mp cyclic with field | ⟨e, declared, cyclic⟩
      · exact fails_iff_not_ok.mp (SourceFile.structs_fail_iff.mpr field) ⟨structs, resolved⟩
      · exact sound e declared cyclic

theorem meets_cycle_iff (valid : ∀ file ∈ files, file.validate = .ok ()) (member : file ∈ files)
    (time : Time) :
    (∃ n, file.generate (Registry.scan files) time = .error (.aliasCycle n)) ↔
      file.Cyclic (Registry.scan files).aliases ∨
        ∃ e, (Registry.scan files).Elsewhere file e ∧
          (Registry.scan files).aliases.Cyclic [] (.named e.rawType) := by
  rw [SourceFile.cyclic_iff, or_assoc,
    ← SourceFile.enums_fail_iff (Registry.nodup_enums_scan files), ← SourceFile.structs_fail_iff]
  simp only [aliasCycle_iff_resolution valid member]
  constructor
  · rintro ⟨n, failed | ⟨_, failed⟩⟩
    · exact .inl ⟨_, failed⟩
    · exact .inr ⟨_, failed⟩
  · intro failed
    cases resolution : file.flatten.structs.mapM (Registry.scan files).resolveStruct with
    | error d =>
      obtain ⟨s, _, failed⟩ := exists_of_mapM_eq_error resolution
      obtain ⟨n, rfl⟩ := Registry.aliasCycle_of_resolveStruct failed
      exact ⟨n, .inl rfl⟩
    | ok structs =>
      rcases failed with ⟨d, failed⟩ | ⟨d, failed⟩
      · cases resolution.symm.trans failed
      · obtain ⟨n, rfl⟩ := Registry.aliasCycle_of_knownEnums failed
        exact ⟨n, .inr ⟨⟨structs, rfl⟩, failed⟩⟩

end

/-- A file of a run over valid files meets an alias cycle exactly if it reaches one itself or the
raw type of an enum that only other files declare does. Every name it reports is one that it
reaches, unless the enums of other files are the only ones to reach a cycle. -/
theorem cycle_attribution (files : List SourceFile)
    (valid : ∀ file ∈ files, file.validate = .ok ()) (file : SourceFile) (member : file ∈ files)
    (time : Time) :
    (∀ n, file.generate (Registry.scan files) time = .error (.aliasCycle n) →
      (Registry.scan files).aliases.OnCycle n ∧
        (file.Reaches (Registry.scan files).aliases n ∨
          ∃ other ∈ files, ∃ e ∈ other.flatten.enums, (Registry.scan files).Elsewhere file e ∧
            (Registry.scan files).aliases.Reaches [] (.named e.rawType) n)) ∧
    ((∃ n, file.generate (Registry.scan files) time = .error (.aliasCycle n)) ↔
      file.Cyclic (Registry.scan files).aliases ∨
        ∃ e, (Registry.scan files).Elsewhere file e ∧
          (Registry.scan files).aliases.Cyclic [] (.named e.rawType)) ∧
    ((∀ n, file.generate (Registry.scan files) time = .error (.aliasCycle n) →
        file.Reaches (Registry.scan files).aliases n) ↔
      file.Cyclic (Registry.scan files).aliases ∨
        ∀ e, (Registry.scan files).Elsewhere file e →
          ¬ (Registry.scan files).aliases.Cyclic [] (.named e.rawType)) := by
  have meets := meets_cycle_iff valid member time
  refine ⟨fun n failed => ?_, meets, ?_, ?_⟩
  · obtain ⟨cycle, reached | ⟨_, e, elsewhere, reached⟩⟩ := reported_from valid member failed
    · exact ⟨cycle, .inl reached⟩
    · obtain ⟨other, listed, declared⟩ := elsewhere.declared
      exact ⟨cycle, .inr ⟨other, listed, e, declared, elsewhere, reached⟩⟩
  · intro own
    by_cases cyclic : file.Cyclic (Registry.scan files).aliases
    · exact .inl cyclic
    refine .inr fun e elsewhere foreign => cyclic ?_
    obtain ⟨n, failed⟩ := meets.mpr (.inr ⟨e, elsewhere, foreign⟩)
    exact ⟨n, own n failed, (reported_from valid member failed).1⟩
  · rintro settled n failed
    obtain ⟨cycle, reached | ⟨acyclic, e, elsewhere, reached⟩⟩ := reported_from valid member failed
    · exact reached
    · rcases settled with cyclic | sound
      · exact absurd cyclic acyclic
      · exact absurd ⟨n, reached, cycle⟩ (sound e elsewhere)

/-- A file with nothing to resolve, and one whose enum is backed by an alias of itself. -/
def pointFile : SourceFile := ⟨"Point.swift", [.struct ⟨"Point", [], [⟨"x", .named "Int"⟩], []⟩]⟩

def loopFile : SourceFile :=
  ⟨"Loop.swift", [.typeAlias ⟨"Loop", .named "Loop"⟩, .enum ⟨"Level", "Loop"⟩ []]⟩

theorem loop_refused :
    (Registry.scan [pointFile, loopFile]).resolveEnum ⟨"Level", "Loop"⟩ =
      .error (.aliasCycle "Loop") := by
  have known : (Registry.scan [pointFile, loopFile]).aliases.target? "Loop" =
      some (.named "Loop") := by decide
  have again : (Registry.scan [pointFile, loopFile]).aliases.follow ["Loop"] "Loop" =
      .error (.aliasCycle "Loop") := by
    rw [Aliases.follow_eq, known]
    rfl
  rw [Registry.resolveEnum, Aliases.resolve, TypeExpr.named, Aliases.resolveIn_name (by simp),
    Aliases.follow_plain known (by simp) rfl]
  simp only [TypeExpr.named, again, bind, Except.bind]

theorem cycle_attribution_loop :
    (∀ file ∈ [pointFile, loopFile], file.validate = .ok ()) ∧ loopFile ∈ [pointFile, loopFile] ∧
    loopFile.generate (Registry.scan [pointFile, loopFile]) ⟨0, 0⟩ = .error (.aliasCycle "Loop") ∧
    loopFile.Reaches (Registry.scan [pointFile, loopFile]).aliases "Loop" := by
  have valid : ∀ file ∈ [pointFile, loopFile], file.validate = .ok () := by decide
  have member : loopFile ∈ [pointFile, loopFile] := by simp
  have failed : loopFile.generate (Registry.scan [pointFile, loopFile]) ⟨0, 0⟩ =
      .error (.aliasCycle "Loop") :=
    (aliasCycle_iff_resolution valid member).mpr
      (.inr ⟨⟨[], rfl⟩, mapM_cons_eq_error.mpr (.inl loop_refused)⟩)
  obtain ⟨reported, -, -⟩ := cycle_attribution [pointFile, loopFile] valid loopFile member ⟨0, 0⟩
  obtain ⟨-, reached | ⟨_, _, e, _, ⟨absent, recorded⟩, _⟩⟩ := reported "Loop" failed
  · exact ⟨valid, member, failed, reached⟩
  · have named : e.name ∈ ["Level"] := NameMap.mem_keys_of_find? recorded
    exact absurd (List.mem_singleton.mp named).symm (absent ⟨"Level", "Loop"⟩ (by decide))

/-- The file stops at the cycle of the other one, to which none of its types leads. -/
theorem stopped_by_other_file :
    (∀ file ∈ [pointFile, loopFile], file.validate = .ok ()) ∧
    pointFile.generate (Registry.scan [pointFile, loopFile]) ⟨0, 0⟩ =
      .error (.aliasCycle "Loop") ∧
    ∀ n, ¬ pointFile.Reaches (Registry.scan [pointFile, loopFile]).aliases n := by
  have valid : ∀ file ∈ [pointFile, loopFile], file.validate = .ok () := by decide
  have unreached : ∀ n, ¬ pointFile.Reaches (Registry.scan [pointFile, loopFile]).aliases n := by
    rintro n (⟨p, written, first, ⟨leaf, _, known⟩, _⟩ | ⟨e, declared, _⟩)
    · have plain : p.2.type = .named "Int" := by
        obtain ⟨s, struct, written⟩ := List.mem_flatMap.mp written
        obtain rfl := List.mem_singleton.mp struct
        obtain rfl := List.mem_singleton.mp written
        rfl
      rw [plain] at leaf
      obtain rfl : first = "Int" := by simpa [TypeExpr.named] using leaf
      revert known
      decide
    · cases declared
  obtain ⟨structs, resolved⟩ | failed := ok_or_fails
    (pointFile.flatten.structs.mapM (Registry.scan [pointFile, loopFile]).resolveStruct)
  · refine ⟨valid, (aliasCycle_iff_resolution valid (by simp)).mpr (.inr ⟨⟨structs, resolved⟩, ?_⟩),
      unreached⟩
    exact mapM_cons_eq_error.mpr (.inl loop_refused)
  · obtain ⟨n, reached, _⟩ :=
      SourceFile.cyclic_iff.mpr (.inl (SourceFile.structs_fail_iff.mp failed))
    exact absurd reached (unreached n)

end SwiftCodec
