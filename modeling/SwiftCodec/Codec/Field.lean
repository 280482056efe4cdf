import SwiftCodec.Codec.Plan
import SwiftCodec.Codec.Statement
import SwiftCodec.TypeExpr.Spelling

/-!
The statements for one field. Decoding reads fields in the order of their declaration, and the
first that is missing or of the wrong type ends it; an optional field that is absent or null is
nil and decodes nothing.
-/
namespace SwiftCodec

namespace Field

/-- The statements that decode a field inside a struct with the given type arguments. -/
def decode (f : Field) (params : List String) : Except Defect (List Statement) := do
  let raw := f.name ++ "_field"
  let type := f.type.spell
  let entry : Source := .entry f.name
  let mismatch : DecodeFailure := .typeMismatch (some f.name) type
  let bound (text : String) : Binding := ⟨f.name, some type, .expression text⟩
  let required : Statement := .guardBind ⟨raw, some "AnyObject", entry⟩ (.missingField f.name)
  match ← f.type.shape with
  | .optional inner =>
    .ok [.bind ⟨raw, some "AnyObject?", entry⟩,
      .bind (bound (raw ++ " == nil || " ++ raw ++ "! is NSNull ? nil : " ++
        decodeExpression (raw ++ "!") inner params)),
      .blank]
  | _ =>
    let rest : Statement :=
      match Marker.of? f.type with
      | some .passThrough => .bind (bound raw)
      | some .cast => .guardBind (bound (raw ++ " as? " ++ type)) mismatch
      | none => .guardBind (bound (decodeExpression raw f.type params)) mismatch
    .ok [required, rest, .blank]

/-- The key type of a dictionary field, if its keys do not encode to strings. A key that is
neither `String` nor a known enum cannot be judged. -/
def nonStringKey? (f : Field) (known : List EnumDecl) : Except Defect (Option String) := do
  match ← f.type.shape with
  | .dictionary key _ =>
    if key.resolvedName = "String" then .ok none
    else
      match known.find? (·.name = key.resolvedName) with
      | none => .error (.unsupportedKey f.name key.resolvedName)
      | some e => .ok (if e.rawType = "String" then none else some key.resolvedName)
  | _ => .ok none

/-- The statements that encode a field, and the key type they carry a warning for. -/
def encode (f : Field) (params : List String) (known : List EnumDecl) :
    Except Defect (List Statement × Option String) := do
  let key? ← f.nonStringKey? known
  let store : Statement := .store f.name (encodeExpression f.name f.type params)
  .ok (if key?.isSome then [.keyWarning, store] else [store], key?)

end Field

end SwiftCodec
