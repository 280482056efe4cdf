import SwiftCodec.Proofs.Registry.Scan

/-!
What scanning more files adds. Codecs that were found stay found, and a file that declares nothing
but extensions adds nothing else.
-/
namespace SwiftCodec

/-- What the first has the second has too. -/
structure Codecs.Within (c c' : Codecs) : Prop where
  decoders : ∀ name, c.hasDecoder name → c'.hasDecoder name
  encoders : ∀ name, c.hasEncoder name → c'.hasEncoder name

namespace Registry

variable {files files' before after : List SourceFile} {file : SourceFile}

theorem provides_of_subset (included : files ⊆ files') {name function : String}
    (provided : Provides files name function) : Provides files' name function := by
  obtain ⟨file, member, x, extended, named, listed⟩ := provided
  exact ⟨file, included member, x, extended, named, listed⟩

theorem within_scan (included : files ⊆ files') :
    (scan files).codecs.Within (scan files').codecs where
  decoders name there := by
    have provided := hasDecoder_scan.mp there
    exact hasDecoder_scan.mpr (provides_of_subset included provided)
  encoders name there := by
    have provided := hasEncoder_scan.mp there
    exact hasEncoder_scan.mpr (provides_of_subset included provided)

theorem within_scan_insert (before after : List SourceFile) (file : SourceFile) :
    (scan (before ++ after)).codecs.Within (scan (before ++ file :: after)).codecs := by
  refine within_scan fun f member => ?_
  rcases List.mem_append.mp member with first | last
  · exact List.mem_append_left _ first
  · exact List.mem_append_right _ (List.mem_cons_of_mem _ last)

/-- Wherever it is put among the files. -/
theorem scan_insert (aliases : file.flatten.aliases = []) (enums : file.flatten.enums = []) :
    scan (before ++ file :: after) =
      { scan (before ++ after) with codecs := (scan (before ++ file :: after)).codecs } := by
  simp only [scan, foldl_observe, List.flatMap_append, List.flatMap_cons, aliases, enums,
    List.nil_append]

end Registry

namespace Declaration

variable {ds : List Declaration}

theorem inventoryAll_extensions (scope : Option String)
    (only : ∀ d ∈ ds, ∃ x, d = .extension x) :
    (inventoryAll scope ds).aliases = [] ∧ (inventoryAll scope ds).enums = [] := by
  induction ds with
  | nil => exact ⟨rfl, rfl⟩
  | cons d ds ih =>
    obtain ⟨⟨x, rfl⟩, rest⟩ := List.forall_mem_cons.mp only
    obtain ⟨aliases, enums⟩ := ih rest
    exact ⟨aliases, enums⟩

end Declaration

end SwiftCodec
