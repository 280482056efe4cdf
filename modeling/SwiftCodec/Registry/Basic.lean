import SwiftCodec.Declaration.Inventory
import SwiftCodec.Json.Writer
import SwiftCodec.Document.Writer
import SwiftCodec.Name.Map

/-!
What the input files declare together: the codecs that exist already, the type aliases and the
enums, all under their qualified names.
-/
namespace SwiftCodec

/-- The names of the two functions that make up a codec. -/
def decodeName : String := "decodeJson"
def encodeName : String := "encodeJson"

/-- The types that have a decoder, and those that have an encoder. -/
structure Codecs where
  decoders : NameSet := {}
  encoders : NameSet := {}
deriving DecidableEq, Repr, Inhabited

namespace Codecs

def hasDecoder (c : Codecs) (name : String) : Bool := c.decoders.contains name
def hasEncoder (c : Codecs) (name : String) : Bool := c.encoders.contains name

/-- An extension that lists one of the two functions is taken to provide it. -/
def observe (c : Codecs) (x : ExtensionDecl) : Codecs where
  decoders := if x.functions.contains decodeName then c.decoders.insert x.name else c.decoders
  encoders := if x.functions.contains encodeName then c.encoders.insert x.name else c.encoders

end Codecs

/-- The declared target of each alias. -/
abbrev Aliases := NameMap TypeExpr

structure Registry where
  codecs : Codecs := {}
  aliases : Aliases := {}
  /-- Every enum with its raw type as written. -/
  enums : NameMap String := {}
deriving Repr, Inhabited

namespace Registry

def observe (r : Registry) (file : SourceFile) : Registry :=
  let found := file.flatten
  { codecs := found.extensions.foldl Codecs.observe r.codecs
    aliases := found.aliases.foldl (fun m a => m.insert a.name a.target) r.aliases
    enums := found.enums.foldl (fun m e => m.insert e.name e.rawType) r.enums }

def scan (files : List SourceFile) : Registry := files.foldl observe {}

def toJson (r : Registry) : Json :=
  .object [("decoders", Json.strings r.codecs.decoders.names),
    ("encoders", Json.strings r.codecs.encoders.names),
    ("typeAliases", .object (r.aliases.entries.map fun (name, t) => (name, t.toJson))),
    ("enums", .object (r.enums.entries.map fun (name, raw) => (name, .string raw)))]

end Registry

end SwiftCodec
