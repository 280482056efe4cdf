import SwiftCodec.Proofs.Declaration.Nesting
import SwiftCodec.Registry.Basic
import Mathlib.Data.List.Basic

/-!
What a registry has after scanning files: a codec function exactly if an extension in one of them
lists it, and under the name of an alias or an enum what was declared last.
-/
namespace SwiftCodec

namespace NameMap

variable {α δ : Type} {key : δ → String} {value : δ → α}

/-- Of declarations entered one after the other, the last of a name counts. -/
theorem find?_foldl_insert (ds : List δ) (m : NameMap α) (name : String) :
    (ds.foldl (fun m d => m.insert (key d) (value d)) m).find? name =
      ((ds.reverse.find? (key · = name)).map value).or (m.find? name) := by
  induction ds generalizing m with
  | nil => simp
  | cons d ds ih =>
    rw [List.foldl_cons, ih, find?_insert, List.reverse_cons, List.find?_append, Option.map_or,
      Option.or_assoc]
    congr 1
    by_cases same : key d = name
    · simp [same]
    · simp [same, Ne.symm same]

theorem nodup_keys_foldl_insert (ds : List δ) (m : NameMap α) (distinct : m.keys.Nodup) :
    (ds.foldl (fun m d => m.insert (key d) (value d)) m).keys.Nodup := by
  induction ds generalizing m with
  | nil => exact distinct
  | cons d ds ih => exact ih _ (nodup_keys_insert distinct)

end NameMap

namespace Codecs

/-- One of the two sets of types, and the function that puts a type into it. -/
theorem contains_foldl_observe (types : Codecs → NameSet) {function : String}
    (step : ∀ c x, types (observe c x) =
      if x.functions.contains function then (types c).insert x.name else types c)
    (xs : List ExtensionDecl) (c : Codecs) (name : String) :
    (types (xs.foldl observe c)).contains name ↔
      (types c).contains name ∨ ∃ x ∈ xs, x.name = name ∧ function ∈ x.functions := by
  induction xs generalizing c with
  | nil => simp
  | cons x xs ih =>
    have observed : (types (observe c x)).contains name ↔
        (types c).contains name ∨ x.name = name ∧ function ∈ x.functions := by
      rw [step]
      by_cases listed : function ∈ x.functions
      · simp only [List.contains_iff_mem.mpr listed, if_true, NameSet.contains_insert, listed,
          and_true]
        rw [or_comm, eq_comm (a := name)]
      · simp [listed]
    rw [List.foldl_cons, ih, observed]
    simp [or_assoc]

end Codecs

/-- Some extension of a file, at whatever depth, has the qualified name and lists the function. -/
def Provides (files : List SourceFile) (name function : String) : Prop :=
  ∃ file ∈ files, ∃ x, Declaration.Extended none file.declarations x ∧
    x.name = name ∧ function ∈ x.functions

namespace Registry

variable {files : List SourceFile} {name : String}

theorem foldl_observe (files : List SourceFile) (r : Registry) :
    files.foldl observe r = {
      codecs := (files.flatMap (·.flatten.extensions)).foldl Codecs.observe r.codecs
      aliases := (files.flatMap (·.flatten.aliases)).foldl (fun m a => m.insert a.name a.target)
        r.aliases
      enums := (files.flatMap (·.flatten.enums)).foldl (fun m e => m.insert e.name e.rawType)
        r.enums } := by
  induction files generalizing r with
  | nil => rfl
  | cons file files ih =>
    rw [List.foldl_cons, ih]
    simp only [observe, List.flatMap_cons, List.foldl_append]

theorem provides_iff_mem {function : String} :
    Provides files name function ↔
      ∃ x ∈ files.flatMap (·.flatten.extensions), x.name = name ∧ function ∈ x.functions := by
  simp only [Provides, ← Declaration.mem_extensions_iff_extended, List.mem_flatMap]
  constructor
  · rintro ⟨file, member, x, found, listed⟩
    exact ⟨x, ⟨file, member, found⟩, listed⟩
  · rintro ⟨x, ⟨file, member, found⟩, listed⟩
    exact ⟨file, member, x, found, listed⟩

theorem hasDecoder_scan :
    (scan files).codecs.hasDecoder name ↔ Provides files name decodeName := by
  have observed := Codecs.contains_foldl_observe Codecs.decoders (fun _ _ => rfl)
    (files.flatMap (·.flatten.extensions)) {} name
  rw [scan, foldl_observe, Codecs.hasDecoder, observed, provides_iff_mem]
  exact or_iff_right (by simp [NameSet.contains])

theorem hasEncoder_scan :
    (scan files).codecs.hasEncoder name ↔ Provides files name encodeName := by
  have observed := Codecs.contains_foldl_observe Codecs.encoders (fun _ _ => rfl)
    (files.flatMap (·.flatten.extensions)) {} name
  rw [scan, foldl_observe, Codecs.hasEncoder, observed, provides_iff_mem]
  exact or_iff_right (by simp [NameSet.contains])

/-- The last alias of a name counts, in whatever file it is. -/
theorem find?_aliases_scan (files : List SourceFile) (name : String) :
    (scan files).aliases.find? name =
      ((files.flatMap (·.flatten.aliases)).reverse.find? (·.name = name)).map (·.target) := by
  rw [scan, foldl_observe, NameMap.find?_foldl_insert]
  exact Option.or_none

theorem find?_enums_scan (files : List SourceFile) (name : String) :
    (scan files).enums.find? name =
      ((files.flatMap (·.flatten.enums)).reverse.find? (·.name = name)).map (·.rawType) := by
  rw [scan, foldl_observe, NameMap.find?_foldl_insert]
  exact Option.or_none

theorem exists_alias_of_find? {t : TypeExpr} (known : (scan files).aliases.find? name = some t) :
    ∃ file ∈ files, ∃ a ∈ file.flatten.aliases, a.name = name ∧ a.target = t := by
  rw [find?_aliases_scan] at known
  obtain ⟨a, found, rfl⟩ := Option.map_eq_some_iff.mp known
  obtain ⟨file, member, declared⟩ :=
    List.mem_flatMap.mp (List.mem_reverse.mp (List.mem_of_find?_eq_some found))
  have named : a.name = name := by simpa using List.find?_some found
  exact ⟨file, member, a, declared, named, rfl⟩

end Registry

end SwiftCodec
