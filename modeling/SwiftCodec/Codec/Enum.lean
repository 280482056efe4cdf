import SwiftCodec.Codec.Statement
import SwiftCodec.Registry.Basic

/-!
The codec of an enum: it travels as its raw value.
-/
namespace SwiftCodec

namespace EnumDecl

def decoder (e : EnumDecl) : Function where
  opening := "static func " ++ decodeName
  parameters := ["json: AnyObject"]
  result := e.name ++ "?"
  body :=
    [.ifBind ⟨"value", none, .expression ("json as? " ++ e.rawType)⟩
        (e.name ++ "(rawValue: value)"),
      .giveBack "nil"]

def encoder (e : EnumDecl) : Function where
  opening := "func " ++ encodeName
  parameters := []
  result := e.rawType
  body := [.giveBack "rawValue"]

end EnumDecl

end SwiftCodec
