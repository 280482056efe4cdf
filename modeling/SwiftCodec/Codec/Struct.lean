import SwiftCodec.Codec.Field

/-!
The codec of a struct. A struct with type arguments cannot know how to code values of those, so
both of its functions take a function for each of them.
-/
namespace SwiftCodec

/-- A dictionary field whose encoded keys will not be strings. -/
structure Warning where
  typeName : String
  field : String
  key : String
deriving DecidableEq, Repr

namespace StructDecl

def decodeParameters (s : StructDecl) : List String :=
  s.parameters.map (fun t => "decode" ++ t ++ ": AnyObject -> " ++ t ++ "?") ++ ["json: AnyObject"]

def encodeParameters (s : StructDecl) : List String :=
  s.parameters.map fun t => "encode" ++ t ++ ": " ++ t ++ " -> AnyObject"

def decoder (s : StructDecl) : Except Defect Function := do
  let fields ← s.fields.mapM (·.decode s.parameters)
  .ok {
    opening := "static func " ++ decodeName
    parameters := s.decodeParameters
    result := s.name ++ "?"
    body :=
      [.guardBind ⟨"dict", none, .expression "json as? [String : AnyObject]"⟩
          (.typeMismatch none "dictionary"),
        .blank] ++
      fields.flatten ++
      [.construct s.name (s.fields.map (·.name))] }

/-- The warnings of encoded fields. -/
def warnings (s : StructDecl) (fields : List (Field × List Statement × Option String)) :
    List Warning :=
  fields.filterMap fun (f, _, key?) => key?.map (⟨s.name, f.name, ·⟩)

def encoder (s : StructDecl) (known : List EnumDecl) : Except Defect (Function × List Warning) := do
  let fields ← s.fields.mapM fun f => do .ok (f, ← f.encode s.parameters known)
  .ok ({
    opening := "func " ++ encodeName
    parameters := s.encodeParameters
    result := "[String: AnyObject]"
    body :=
      [.newDictionary, .blank] ++
      (fields.map (·.2.1)).flatten ++
      [.blank, .giveBack "dict"] }, s.warnings fields)

end StructDecl

end SwiftCodec
