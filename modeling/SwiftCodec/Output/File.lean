import SwiftCodec.Declaration.Validity
import SwiftCodec.Output.Listing

/-!
The file generated from one source file, against the registry of all of them.
-/
namespace SwiftCodec

structure GeneratedFile where
  filename : String
  listing : Listing
deriving DecidableEq, Repr

/-- `Models.swift` gives `Models+JsonGen.swift`; one ending is dropped at most. -/
def outputFilename (source : String) : String :=
  let stem :=
    if ".swift".toList.isSuffixOf source.toList then
      String.ofList (source.toList.take (source.length - 6))
    else source
  stem ++ "+JsonGen.swift"

namespace GeneratedFile

/-- The lines, each ended by a line break. -/
def contents (f : GeneratedFile) : String :=
  String.intercalate "\n" f.listing.lines ++ "\n"

end GeneratedFile

/-- Generates the codecs a source file lacks. -/
def SourceFile.generate (file : SourceFile) (registry : Registry) (time : Time) :
    Except Defect GeneratedFile := do
  file.validate
  let found := file.flatten
  let structs ← found.structs.mapM registry.resolveStruct
  let known ← registry.knownEnums found.enums
  let filename := outputFilename file.filename
  let start : Listing := ({} : Listing).header filename time
  match start.emit registry.codecs known found.enums structs with
  | (listing, none) => .ok ⟨filename, listing⟩
  | (_, some d) => .error d

end SwiftCodec
